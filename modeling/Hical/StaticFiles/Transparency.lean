import Hical.StaticFiles.Representation

namespace Hical

namespace Response
variable {r : Response} {name value body contentType : Bytes}

@[simp] theorem setHeader_status : (r.setHeader name value).status = r.status := by
  rw [setHeader]
  split
  · rfl
  · rfl

@[simp] theorem setHeader_body : (r.setHeader name value).body = r.body := by
  rw [setHeader]
  split
  · rfl
  · rfl

@[simp] theorem setHeader_fileBody : (r.setHeader name value).fileBody = r.fileBody := by
  rw [setHeader]
  split
  · rfl
  · rfl

theorem setBody_status : (r.setBody body contentType).status = r.status := by
  rw [setBody]
  split
  · rfl
  · rfl

theorem setBody_body (h : containsCRLF contentType = false) : (r.setBody body contentType).body = body := by
  rw [setBody, h, if_neg Bool.false_ne_true]
  rfl

theorem setBody_fileBody : (r.setBody body contentType).fileBody = r.fileBody := by
  rw [setBody]
  split
  · rfl
  · rfl

end Response

namespace StaticFiles
open Lru

/-- A tree of files that does not change, with the contents of those that can be read. -/
structure FileTree extends FileSystem where
  content : Bytes → Option Bytes
  sized : ∀ path file, content path = some file → fileSize path = some file.length

/-- What happens on a thread while the tree stays as it is. -/
inductive TreeOp where
  | request (clock : Clock) (h : Handler) (req : Request)
  | read (i : Nat) (now : Nat)

def FileTree.read (tree : FileTree) (p : Pending) : Option Bytes := (tree.content p.target).map p.part

def TreeOp.op (tree : FileTree) (t : Thread) : TreeOp → Op
  | .request clock h req => .request tree.toFileSystem clock h req
  | .read i now => .read i (t.pending[i]?.bind tree.read) now

namespace Thread

def treeStep (tree : FileTree) (t : Thread) (op : TreeOp) : Thread := t.step (op.op tree t)

def treeRun (tree : FileTree) (ops : List TreeOp) : Thread := ops.foldl (treeStep tree) {}

end Thread

def FileTree.answer (tree : FileTree) : Outcome → Option Response
  | .respond r => some r
  | .read p => (finish {} p (tree.read p) 0).1

def FileTree.target (tree : FileTree) (h : Handler) (req : Request) : Option Bytes :=
  match h.root with
  | none => none
  | some root =>
    match tree.canonical (joinPath root (relPath h req)) with
    | none => none
    | some target =>
      if !isSafePath root target then none
      else
        match indexed tree.toFileSystem root target with
        | none => none
        | some target => if tree.isRegularFile target then some target else none

/-- A request is answered as without caches. -/
def Transparent (tree : FileTree) (clock : Clock) (c : Caches) (h : Handler) (req : Request) : Prop :=
  tree.answer (serve tree.toFileSystem clock c h req).1 = tree.answer (serve tree.toFileSystem clock {} h req).1

/-- A request for a whole text, which the cache may answer. -/
def AsksText (req : Request) (target : Bytes) : Prop :=
  isTextMime (mimeType (extension target)) = true ∧ req.headers.find (bytes "Range") = []

/-- A readable file within the limit is answered with its bytes, unless the request asks for a part of it
or has it already. -/
def Answered (tree : FileTree) (clock : Clock) (c : Caches) (h : Handler) (req : Request) : Prop :=
  ∀ target file lastWrite, tree.target h req = some target → tree.content target = some file →
    file.length ≤ h.maxFileSize → tree.lastWriteTime target = some lastWrite →
    req.headers.find (bytes "Range") = [] → ifNoneMatches req (makeEtag file.length lastWrite) = false →
    ∃ r, tree.answer (serve tree.toFileSystem clock c h req).1 = some r ∧ r.status = .hOk ∧
      (r.fileBody = none ∧ r.body = file ∨ r.fileBody = some ⟨target, 0, file.length⟩)

/-- The cache has the text, which is larger than what this handler serves. -/
def Oversized (tree : FileTree) (clock : Clock) (c : Caches) (h : Handler) (req : Request) : Prop :=
  ∃ target n, tree.target h req = some target ∧ AsksText req target ∧
    (lookUpContent tree.toFileSystem clock.served c.content target).1 = some n ∧
    h.maxFileSize < n.entry.content.length

/-- The text is empty, and its bytes are asked for. -/
def EmptyText (tree : FileTree) (h : Handler) (req : Request) : Prop :=
  ∃ target lastWrite, tree.target h req = some target ∧ AsksText req target ∧ tree.content target = some [] ∧
    tree.lastWriteTime target = some lastWrite ∧ ifNoneMatches req (makeEtag 0 lastWrite) = false

/-- Entries of the path cache agree with the tree; no path holds the byte between root and path. -/
def PathSound (tree : FileTree) (n : Node Bytes PathEntry) : Prop :=
  ∃ root rel, n.key = cacheKey root rel ∧ (1 : UInt8) ∉ rel ∧
    tree.canonical (joinPath root rel) = some n.entry.canonical

def ContentSound (tree : FileTree) (n : Node Bytes ContentEntry) : Prop :=
  tree.content n.key = some n.entry.content ∧ n.entry.content ≠ [] ∧
    tree.lastWriteTime n.key = some n.entry.mtimeNs ∧
    n.entry.etag = makeEtag n.entry.content.length n.entry.mtimeNs

def PendingSound (tree : FileTree) (p : Pending) : Prop :=
  tree.fileSize p.target = some p.fileSize ∧ tree.lastWriteTime p.target = some p.lastWrite ∧
    p.etag = makeEtag p.fileSize p.lastWrite

/-- The caches agree with the tree. -/
structure CachesSound (tree : FileTree) (c : Caches) : Prop where
  path : c.path.Coherent
  paths : ∀ n ∈ c.path.lruList, PathSound tree n
  content : c.content.Coherent
  contents : ∀ n ∈ c.content.lruList, ContentSound tree n

structure Sound (tree : FileTree) (t : Thread) : Prop where
  caches : CachesSound tree t.caches
  pending : ∀ p ∈ t.pending, PendingSound tree p

section Paths
variable {tree : FileTree} {clock : Clock} {root rel root' rel' : Bytes} {cache : Cache Bytes PathEntry}
  {h : Handler} {req : Request}

theorem cacheKey_inj (hrel : (1 : UInt8) ∉ rel) (hrel' : (1 : UInt8) ∉ rel')
    (h : cacheKey root rel = cacheKey root' rel') : root = root' ∧ rel = rel' := by
  rw [cacheKey, cacheKey] at h
  rcases List.append_eq_append_iff.1 h with ⟨more, rfl, hmore⟩ | ⟨more, rfl, hmore⟩
  · cases more with
    | nil => exact ⟨(List.append_nil _).symm, (List.cons.inj hmore).2⟩
    | cons b more =>
      have hin : (1 : UInt8) ∈ rel := by
        rw [(List.cons.inj hmore).2]
        exact List.mem_append_right _ (List.mem_cons_self ..)
      exact absurd hin hrel
  · cases more with
    | nil => exact ⟨List.append_nil _, (List.cons.inj hmore).2.symm⟩
    | cons b more =>
      have hin : (1 : UInt8) ∈ rel' := by
        rw [(List.cons.inj hmore).2]
        exact List.mem_append_right _ (List.mem_cons_self ..)
      exact absurd hin hrel'

theorem mem_cut_fst {c b : UInt8} {s : Bytes} (h : b ∈ (cut c s).1) : b ∈ s := by
  induction s with
  | nil => cases h
  | cons a s ih =>
    rw [cut] at h
    split at h
    · cases h
    · rcases List.mem_cons.1 h with rfl | h
      · exact List.mem_cons_self ..
      · exact List.mem_cons_of_mem _ (ih h)

theorem not_mem_relPath (hreq : (1 : UInt8) ∉ req.target) : (1 : UInt8) ∉ relPath h req := by
  have hpath : (1 : UInt8) ∉ req.path := fun hin => hreq (mem_cut_fst hin)
  rw [relPath]
  split
  · exact fun hin => hpath (List.mem_of_mem_drop hin)
  · split
    · exact List.not_mem_nil
    · exact hpath

theorem resolve_sound (clock : Clock) (root : Bytes) (hc : cache.Coherent) (hs : ∀ n ∈ cache.lruList, PathSound tree n)
    (hrel : (1 : UInt8) ∉ rel) :
    (resolve tree.toFileSystem clock cache root rel).1 = tree.canonical (joinPath root rel) ∧
      (resolve tree.toFileSystem clock cache root rel).2.Coherent ∧
      ∀ n ∈ (resolve tree.toFileSystem clock cache root rel).2.lruList, PathSound tree n := by
  have hanew : (resolveAnew tree.toFileSystem clock cache root rel).1 = tree.canonical (joinPath root rel) ∧
      (resolveAnew tree.toFileSystem clock cache root rel).2.Coherent ∧
      ∀ n ∈ (resolveAnew tree.toFileSystem clock cache root rel).2.lruList, PathSound tree n := by
    rw [resolveAnew]
    cases hcan : tree.canonical (joinPath root rel) with
    | none => exact ⟨rfl, hc, hs⟩
    | some target =>
      refine ⟨rfl, (hc.makeRoom _).insert _ _, Cache.forall_insert (fun n hn => ?_) ?_⟩
      · exact hs n (Cache.makeRoom_sublist.1.subset hn)
      · exact ⟨root, rel, rfl, hrel, hcan⟩
  rw [resolve]
  cases hfind : cache.find (cacheKey root rel) with
  | none => exact hanew
  | some n =>
    have hmem := (Cache.find_eq_some hfind).2
    dsimp only
    split
    · refine ⟨?_, hc.promote hmem, Cache.forall_promote hs hmem⟩
      obtain ⟨root', rel', hkey, hrel', hcan⟩ := hs n hmem
      obtain ⟨rfl, rfl⟩ := cacheKey_inj hrel hrel' ((hc.key_of_find hfind).symm.trans hkey)
      exact hcan.symm
    · exact hanew

end Paths

section Contents
variable {tree : FileTree} {clock : Clock} {cache : Cache Bytes ContentEntry} {h : Handler} {req : Request}
  {target file : Bytes} {n : Node Bytes ContentEntry} {now : Nat}

theorem lookUpContent_sound (target : Bytes) (now : Nat) (hc : cache.Coherent) (hs : ∀ n ∈ cache.lruList, ContentSound tree n) :
    (lookUpContent tree.toFileSystem now cache target).2.Coherent ∧
      (∀ n ∈ (lookUpContent tree.toFileSystem now cache target).2.lruList, ContentSound tree n) ∧
      ∀ n, (lookUpContent tree.toFileSystem now cache target).1 = some n →
        n.key = target ∧ n ∈ (lookUpContent tree.toFileSystem now cache target).2.lruList := by
  rw [lookUpContent]
  cases hfind : cache.find target with
  | none => exact ⟨hc, hs, fun n hn => (by cases hn)⟩
  | some n =>
    have hmem := (Cache.find_eq_some hfind).2
    have hkey := hc.key_of_find hfind
    dsimp only
    split
    · refine ⟨hc, hs, fun m hm => ?_⟩
      cases hm
      exact ⟨hkey, hmem⟩
    · split
      · refine ⟨hc.update n.addr fun e => { e with cachedAt := now }, Cache.forall_update hs fun m hm => hm,
          fun m hm => ?_⟩
        cases hm
        refine ⟨hkey, List.mem_map.2 ⟨n, hmem, ?_⟩⟩
        rw [if_pos rfl]
      · refine ⟨hc.erase target, fun m hm => hs m (Cache.erase_sublist.1.subset hm), fun m hm => (by cases hm)⟩

theorem serveTarget_sound (hc : cache.Coherent) (hs : ∀ n ∈ cache.lruList, ContentSound tree n) :
    (serveTarget tree.toFileSystem clock cache h req target).2.Coherent ∧
      ∀ n ∈ (serveTarget tree.toFileSystem clock cache h req target).2.lruList, ContentSound tree n := by
  obtain ⟨hcoh, hsound, hmem⟩ := lookUpContent_sound target clock.served hc hs
  rw [serveTarget]
  split
  · cases hl : lookUpContent tree.toFileSystem clock.served cache target with
    | mk found cache' =>
      rw [hl] at hcoh hsound hmem
      cases found with
      | none => exact ⟨hcoh, hsound⟩
      | some n => exact ⟨hcoh.promote (hmem n rfl).2, Cache.forall_promote hsound (hmem n rfl).2⟩
  · exact ⟨hc, hs⟩

theorem serveFile_sound {mime : Bytes} (hp : serveFile tree.toFileSystem h req target mime = .read p) :
    PendingSound tree p := by
  rw [serveFile] at hp
  cases hsize : tree.fileSize target with
  | none =>
    rw [hsize] at hp
    cases hp
  | some fileSize =>
    rw [hsize] at hp
    dsimp only at hp
    split at hp
    · cases hp
    · cases hlast : tree.lastWriteTime target with
      | none =>
        rw [hlast] at hp
        cases hp
      | some lastWrite =>
        rw [hlast] at hp
        dsimp only at hp
        have hwhole : ∀ q : Pending, wholeFile q = .read p → p = q := by
          intro q hq
          rw [wholeFile] at hq
          split at hq
          · cases hq
            rfl
          · cases hq
        split at hp
        · cases hp
        · split at hp
          · rw [hwhole _ hp]
            exact ⟨hsize, hlast, rfl⟩
          · split at hp
            · cases hp
            · rw [hwhole _ hp]
              exact ⟨hsize, hlast, rfl⟩
            · split at hp
              · cases hp
                exact ⟨hsize, hlast, rfl⟩
              · cases hp

def plainAnswer (tree : FileTree) (h : Handler) (req : Request) (target : Bytes) : Option Response :=
  tree.answer (serveFile tree.toFileSystem h req target (mimeType (extension target)))

theorem containsCRLF_mimeType (ext : Bytes) : Response.containsCRLF (mimeType ext) = false := by
  have hrows : ∀ e ∈ mimeTable, Response.containsCRLF e.2 = false := by decide
  rw [mimeType]
  cases hl : mimeTable.lookup ext with
  | none => decide
  | some mime =>
    obtain ⟨l₁, l₂, htable, -⟩ := List.lookup_eq_some_iff.1 hl
    refine hrows (ext, mime) ?_
    rw [htable]
    exact List.mem_append_right _ (List.mem_cons_self ..)

theorem status_fileHeaders (r : Response) (etag : Bytes) : (fileHeaders r etag).status = r.status := by
  simp only [fileHeaders, Response.noSniff, Response.setHeader_status]

theorem wholeText_ok (content etag ext : Bytes) :
    (wholeText content etag (mimeType ext)).status = .hOk ∧
      (wholeText content etag (mimeType ext)).fileBody = none ∧
      (wholeText content etag (mimeType ext)).body = content := by
  refine ⟨?_, ?_, ?_⟩
  · rw [wholeText, status_fileHeaders, Response.setBody_status]
    rfl
  · simp only [wholeText, fileHeaders, Response.noSniff, Response.setHeader_fileBody, Response.setBody_fileBody]
    rfl
  · simp only [wholeText, fileHeaders, Response.noSniff, Response.setHeader_body]
    exact Response.setBody_body (containsCRLF_mimeType ext)

theorem status_notModified (etag : Bytes) : (notModified etag).status = .hNotModified := by
  rw [notModified, Response.preparePayload]
  split
  · rw [Response.setHeader_status]
    rfl
  · dsimp only
    rw [Response.setHeader_status]
    rfl

theorem status_fileTooLarge : fileTooLarge.status = .hPayloadTooLarge := by
  rw [fileTooLarge, Response.plainText, Response.setBody_status]
  rfl

theorem status_serverError : Response.serverError.status = .hInternalServerError := by
  rw [Response.serverError, Response.noSniff, Response.setHeader_status, Response.plainText,
    Response.setBody_status]
  rfl

theorem serveFile_whole {lastWrite : Int} {mime : Bytes} (hsize : tree.fileSize target = some size)
    (hlimit : size ≤ h.maxFileSize) (hlast : tree.lastWriteTime target = some lastWrite)
    (hrange : req.headers.find (bytes "Range") = []) :
    serveFile tree.toFileSystem h req target mime =
      if ifNoneMatches req (makeEtag size lastWrite) then .respond (notModified (makeEtag size lastWrite))
      else wholeFile ⟨target, mime, makeEtag size lastWrite, size, lastWrite, none⟩ := by
  rw [serveFile, hsize]
  dsimp only
  rw [if_neg (Nat.not_lt_of_le hlimit), hlast]
  dsimp only
  rw [hrange]
  rfl

theorem answer_read {mime etag : Bytes} {lastWrite : Int} (hfile : tree.content target = some file)
    (hne : file ≠ []) :
    tree.answer (.read ⟨target, mime, etag, file.length, lastWrite, none⟩) = some (wholeText file etag mime) := by
  have hread : tree.read ⟨target, mime, etag, file.length, lastWrite, none⟩ = some file := by
    rw [FileTree.read, hfile]
    exact congrArg some (List.take_length ..)
  rw [FileTree.answer, hread, finish]
  dsimp only
  rw [if_neg hne]

theorem hit_iff (hs : ContentSound tree n) (hkey : n.key = target)
    (hasks : AsksText req target) :
    some (if ifNoneMatches req n.entry.etag then notModified n.entry.etag
        else wholeText n.entry.content n.entry.etag (mimeType (extension target))) =
      plainAnswer tree h req target ↔ n.entry.content.length ≤ h.maxFileSize := by
  subst hkey
  obtain ⟨hfile, hne, hlast, hetag⟩ := hs
  have hsize := tree.sized _ _ hfile
  rw [plainAnswer, hetag]
  constructor
  · intro heq
    by_contra hlarge
    have hlarge := Nat.lt_of_not_le hlarge
    have htoo : serveFile tree.toFileSystem h req n.key (mimeType (extension n.key)) = .respond fileTooLarge := by
      rw [serveFile, hsize]
      exact if_pos hlarge
    rw [htoo] at heq
    have hstatus := congrArg Response.status (Option.some.inj heq)
    rw [status_fileTooLarge] at hstatus
    split at hstatus
    · rw [status_notModified] at hstatus
      cases hstatus
    · rw [(wholeText_ok ..).1] at hstatus
      cases hstatus
  · intro hlimit
    rw [serveFile_whole hsize hlimit hlast hasks.2]
    split
    · rfl
    · rw [wholeFile, if_pos hasks.1, answer_read hfile hne]

end Contents

section Requests
variable {tree : FileTree} {clock : Clock} {c : Caches} {h : Handler} {req : Request} {target : Bytes}

theorem cachesSound_empty (tree : FileTree) : CachesSound tree {} :=
  ⟨Cache.coherent_empty, fun _ hn => (nomatch hn), Cache.coherent_empty, fun _ hn => (nomatch hn)⟩

/-- A request that is for no file is refused whatever the caches hold. -/
theorem serve_none (tree : FileTree) (h : Handler) (req : Request) (hreq : (1 : UInt8) ∉ req.target)
    (ht : tree.target h req = none) :
    ∃ r, ∀ clock c, CachesSound tree c → (serve tree.toFileSystem clock c h req).1 = .respond r := by
  rw [FileTree.target] at ht
  cases hroot : h.root with
  | none => exact ⟨.notFound, fun clock c _ => by rw [serve, hroot]⟩
  | some root =>
    rw [hroot] at ht
    dsimp only at ht
    have hresolve : ∀ clock c, CachesSound tree c →
        (resolve tree.toFileSystem clock c.path root (relPath h req)).1 =
          tree.canonical (joinPath root (relPath h req)) :=
      fun clock c hc => (resolve_sound clock root hc.path hc.paths (not_mem_relPath hreq)).1
    cases hcan : tree.canonical (joinPath root (relPath h req)) with
    | none =>
      refine ⟨.notFound, fun clock c hc => ?_⟩
      have hres := hresolve clock c hc
      rw [serve, hroot]
      dsimp only
      cases hr : resolve tree.toFileSystem clock c.path root (relPath h req) with
      | mk found path =>
        rw [hr, hcan] at hres
        cases hres
        rfl
    | some target =>
      rw [hcan] at ht
      dsimp only at ht
      have hfound : ∀ clock c, CachesSound tree c → ∃ path,
          resolve tree.toFileSystem clock c.path root (relPath h req) = (some target, path) :=
        fun clock c hc => ⟨_, Prod.ext ((hresolve clock c hc).trans hcan) rfl⟩
      by_cases hsafe : isSafePath root target = true
      · rw [hsafe, Bool.not_true, if_neg Bool.false_ne_true] at ht
        refine ⟨.notFound, fun clock c hc => ?_⟩
        obtain ⟨path, hr⟩ := hfound clock c hc
        rw [serve, hroot]
        dsimp only
        rw [hr]
        dsimp only
        rw [hsafe, Bool.not_true, if_neg Bool.false_ne_true]
        split
        · rfl
        · next hindex =>
          rw [hindex] at ht
          dsimp only at ht
          split at ht
          · cases ht
          · next hfile =>
            rw [Bool.not_eq_true] at hfile
            rw [hfile]
            rfl
      · refine ⟨forbidden, fun clock c hc => ?_⟩
        rw [Bool.not_eq_true] at hsafe
        obtain ⟨path, hr⟩ := hfound clock c hc
        rw [serve, hroot]
        dsimp only
        rw [hr]
        dsimp only
        rw [hsafe]
        rfl

theorem serve_some (hc : CachesSound tree c) (hreq : (1 : UInt8) ∉ req.target)
    (ht : tree.target h req = some target) :
    (serve tree.toFileSystem clock c h req).1 = (serveTarget tree.toFileSystem clock c.content h req target).1 := by
  rw [FileTree.target] at ht
  cases hroot : h.root with
  | none =>
    rw [hroot] at ht
    cases ht
  | some root =>
    rw [hroot] at ht
    dsimp only at ht
    have hres := (resolve_sound clock root hc.path hc.paths (not_mem_relPath hreq (h := h))).1
    rw [serve, hroot]
    dsimp only
    cases hr : resolve tree.toFileSystem clock c.path root (relPath h req) with
    | mk found path =>
      rw [hr] at hres
      dsimp only at hres
      rw [← hres] at ht
      cases found with
      | none => cases ht
      | some found =>
        dsimp only at ht ⊢
        split at ht
        · cases ht
        · next hsafe =>
          rw [if_neg hsafe]
          cases hindex : indexed tree.toFileSystem root found with
          | none =>
            rw [hindex] at ht
            cases ht
          | some index =>
            rw [hindex] at ht
            dsimp only at ht ⊢
            split at ht
            · next hfile =>
              cases ht
              rw [hfile]
              rfl
            · cases ht

theorem serveTarget_file {cache : Cache Bytes ContentEntry}
    (hmiss : AsksText req target → (lookUpContent tree.toFileSystem clock.served cache target).1 = none) :
    (serveTarget tree.toFileSystem clock cache h req target).1 =
      serveFile tree.toFileSystem h req target (mimeType (extension target)) := by
  rw [serveTarget]
  split
  · next hasks =>
    rw [Bool.and_eq_true, beq_iff_eq] at hasks
    have hnone := hmiss hasks
    cases hl : lookUpContent tree.toFileSystem clock.served cache target with
    | mk found cache' =>
      rw [hl] at hnone
      cases hnone
      rfl
  · rfl

theorem serveTarget_hit {cache : Cache Bytes ContentEntry} {n : Node Bytes ContentEntry}
    (hasks : AsksText req target) (hhit : (lookUpContent tree.toFileSystem clock.served cache target).1 = some n) :
    (serveTarget tree.toFileSystem clock cache h req target).1 =
      .respond (if ifNoneMatches req n.entry.etag then notModified n.entry.etag
        else wholeText n.entry.content n.entry.etag (mimeType (extension target))) := by
  have hcond : (isTextMime (mimeType (extension target)) && req.headers.find (bytes "Range") == []) = true := by
    rw [Bool.and_eq_true, beq_iff_eq]
    exact hasks
  rw [serveTarget, if_pos hcond]
  cases hl : lookUpContent tree.toFileSystem clock.served cache target with
  | mk found cache' =>
    rw [hl] at hhit
    cases hhit
    rfl

theorem lookUpContent_empty (fs : FileSystem) (now : Nat) (target : Bytes) :
    (lookUpContent fs now {} target).1 = none := rfl

theorem answer_empty (tree : FileTree) (hreq : (1 : UInt8) ∉ req.target) (ht : tree.target h req = some target) :
    tree.answer (serve tree.toFileSystem clock {} h req).1 = plainAnswer tree h req target := by
  rw [serve_some (cachesSound_empty tree) hreq ht, serveTarget_file fun _ => lookUpContent_empty ..]
  rfl

theorem transparent_iff (clock : Clock) (h : Handler) (hc : CachesSound tree c) (hreq : (1 : UInt8) ∉ req.target) :
    Transparent tree clock c h req ↔ ¬ Oversized tree clock c h req := by
  rw [Transparent]
  cases ht : tree.target h req with
  | none =>
    obtain ⟨r, hr⟩ := serve_none tree h req hreq ht
    rw [hr clock c hc, hr clock {} (cachesSound_empty tree)]
    refine iff_of_true rfl fun hbig => ?_
    obtain ⟨target, n, htarget, -⟩ := hbig
    rw [ht] at htarget
    cases htarget
  | some target =>
    rw [answer_empty tree hreq ht, serve_some hc hreq ht]
    by_cases hhit : ∃ n, AsksText req target ∧
        (lookUpContent tree.toFileSystem clock.served c.content target).1 = some n
    · obtain ⟨n, hasks, hhit⟩ := hhit
      obtain ⟨-, hsound, hmem⟩ := lookUpContent_sound target clock.served hc.content hc.contents
      obtain ⟨hkey, hin⟩ := hmem n hhit
      rw [serveTarget_hit hasks hhit, FileTree.answer, hit_iff (hsound n hin) hkey hasks]
      constructor
      · rintro hle ⟨target', n', htarget', -, hhit', hlt⟩
        rw [ht] at htarget'
        cases htarget'
        rw [hhit] at hhit'
        cases hhit'
        exact Nat.not_lt_of_le hle hlt
      · intro hno
        by_contra hlt
        exact hno ⟨target, n, ht, hasks, hhit, Nat.lt_of_not_le hlt⟩
    · have hmiss : AsksText req target →
          (lookUpContent tree.toFileSystem clock.served c.content target).1 = none := by
        intro hasks
        rw [Option.eq_none_iff_forall_ne_some]
        exact fun n hn => hhit ⟨n, hasks, hn⟩
      rw [serveTarget_file hmiss]
      refine iff_of_true rfl fun hbig => ?_
      obtain ⟨target', n, htarget', hasks, hn, -⟩ := hbig
      rw [ht] at htarget'
      cases htarget'
      exact hhit ⟨n, hasks, hn⟩

theorem not_answered_empty (hc : CachesSound tree c) (hreq : (1 : UInt8) ∉ req.target)
    (hempty : EmptyText tree h req) : ¬ Answered tree clock c h req := by
  obtain ⟨target, lastWrite, ht, hasks, hfile, hlast, hmatch⟩ := hempty
  intro ha
  obtain ⟨r, hr, hstatus, -⟩ := ha target [] lastWrite ht hfile (Nat.zero_le _) hlast hasks.2 hmatch
  have hmiss : (lookUpContent tree.toFileSystem clock.served c.content target).1 = none := by
    rw [Option.eq_none_iff_forall_ne_some]
    intro n hn
    obtain ⟨-, hsound, hmem⟩ := lookUpContent_sound target clock.served hc.content hc.contents
    obtain ⟨rfl, hin⟩ := hmem n hn
    obtain ⟨hcontent, hne, -⟩ := hsound n hin
    rw [hfile] at hcontent
    exact hne (Option.some.inj hcontent).symm
  rw [serve_some hc hreq ht, serveTarget_file fun _ => hmiss,
    serveFile_whole (tree.sized _ _ hfile) (Nat.zero_le _) hlast hasks.2, List.length_nil, hmatch,
    if_neg Bool.false_ne_true, wholeFile, if_pos hasks.1, FileTree.answer, FileTree.read, hfile] at hr
  have hstatus' := status_serverError
  rw [Option.some.inj hr, hstatus] at hstatus'
  cases hstatus'

/-- A request is answered as without caches, and a readable file with its bytes, exactly when no cached
text is too large for the handler and no empty text is asked for. -/
theorem served_iff (hc : CachesSound tree c) (hreq : (1 : UInt8) ∉ req.target) :
    Transparent tree clock c h req ∧ Answered tree clock c h req ↔
      ¬ Oversized tree clock c h req ∧ ¬ EmptyText tree h req := by
  rw [transparent_iff clock h hc hreq]
  refine and_congr_right fun hsize => ?_
  constructor
  · exact fun ha hempty => not_answered_empty hc hreq hempty ha
  · intro hnonempty target file lastWrite ht hfile hlimit hlast hrange hmatch
    have hplain := (transparent_iff clock h hc hreq).2 hsize
    rw [Transparent, answer_empty tree hreq ht, plainAnswer,
      serveFile_whole (tree.sized _ _ hfile) hlimit hlast hrange, hmatch, if_neg Bool.false_ne_true] at hplain
    by_cases htext : isTextMime (mimeType (extension target)) = true
    · have hne : file ≠ [] := by
        rintro rfl
        exact hnonempty ⟨target, lastWrite, ht, ⟨htext, hrange⟩, hfile, hlast, hmatch⟩
      rw [wholeFile, if_pos htext, answer_read hfile hne] at hplain
      obtain ⟨hstatus, hnofile, hbody⟩ := wholeText_ok file (makeEtag file.length lastWrite) (extension target)
      exact ⟨_, hplain, hstatus, .inl ⟨hnofile, hbody⟩⟩
    · rw [wholeFile, if_neg htext] at hplain
      refine ⟨_, hplain, ?_, .inr ?_⟩
      · rw [status_fileHeaders, Response.setFileBody, containsCRLF_mimeType]
        rfl
      · simp only [fileHeaders, Response.noSniff, Response.setHeader_fileBody]
        rw [Response.setFileBody, containsCRLF_mimeType]
        rfl

end Requests

section Steps
variable {tree : FileTree} {clock : Clock} {c : Caches} {h : Handler} {req : Request} {p : Pending} {t : Thread}

theorem serve_caches_sound (clock : Clock) (h : Handler) (hc : CachesSound tree c) (hreq : (1 : UInt8) ∉ req.target) :
    CachesSound tree (serve tree.toFileSystem clock c h req).2 := by
  obtain ⟨hroot, hnone, hcontent⟩ := serve_caches tree.toFileSystem clock c h req
  have hpath : (serve tree.toFileSystem clock c h req).2.path.Coherent ∧
      ∀ n ∈ (serve tree.toFileSystem clock c h req).2.path.lruList, PathSound tree n := by
    cases hr : h.root with
    | none =>
      rw [hnone hr]
      exact ⟨hc.path, hc.paths⟩
    | some root =>
      rw [hroot root hr]
      exact (resolve_sound clock root hc.path hc.paths (not_mem_relPath hreq)).2
  have hcontents : (serve tree.toFileSystem clock c h req).2.content.Coherent ∧
      ∀ n ∈ (serve tree.toFileSystem clock c h req).2.content.lruList, ContentSound tree n := by
    rcases hcontent with heq | ⟨target, heq⟩
    · rw [heq]
      exact ⟨hc.content, hc.contents⟩
    · rw [heq]
      exact serveTarget_sound hc.content hc.contents
  exact ⟨hpath.1, hpath.2, hcontents.1, hcontents.2⟩

theorem serve_pending_sound (clock : Clock) (h : Handler) (hc : CachesSound tree c) (hreq : (1 : UInt8) ∉ req.target)
    (hp : (serve tree.toFileSystem clock c h req).1 = .read p) : PendingSound tree p := by
  cases ht : tree.target h req with
  | none =>
    obtain ⟨r, hr⟩ := serve_none tree h req hreq ht
    rw [hr clock c hc] at hp
    cases hp
  | some target =>
    rw [serve_some hc hreq ht] at hp
    by_cases hhit : ∃ n, AsksText req target ∧
        (lookUpContent tree.toFileSystem clock.served c.content target).1 = some n
    · obtain ⟨n, hasks, hhit⟩ := hhit
      rw [serveTarget_hit hasks hhit] at hp
      cases hp
    · rw [serveTarget_file fun hasks => Option.eq_none_iff_forall_ne_some.2 fun n hn => hhit ⟨n, hasks, hn⟩] at hp
      exact serveFile_sound hp

theorem finish_sound (hc : CachesSound tree c) (hp : PendingSound tree p) (now : Nat) :
    CachesSound tree (finish c p (tree.read p) now).2 := by
  obtain ⟨hsize, hlast, hetag⟩ := hp
  cases hfile : tree.content p.target with
  | none =>
    rw [FileTree.read, hfile]
    exact hc
  | some file =>
    have hlen : p.fileSize = file.length := Option.some.inj (hsize.symm.trans (tree.sized _ _ hfile))
    rw [FileTree.read, hfile, Option.map_some, finish]
    cases hrange : p.range with
    | some range => exact hc
    | none =>
      have hpart : p.part file = file := by
        rw [Pending.part, hrange, hlen]
        exact List.take_length
      dsimp only
      rw [hpart]
      split
      · exact hc
      · next hne =>
        have hnew : ContentSound tree ⟨(c.content.makeRoom TlContentCache.kMaxEntries).made, p.target,
            ⟨file, p.etag, p.lastWrite, now⟩⟩ := ⟨hfile, hne, hlast, by rw [hetag, hlen]⟩
        refine ⟨hc.path, hc.paths, ?_, ?_⟩
        · dsimp only
          rw [cacheContent]
          split
          · exact (hc.content.makeRoom _).insert _ _
          · exact hc.content
        · dsimp only
          rw [cacheContent]
          split
          · refine Cache.forall_insert (fun n hn => ?_) hnew
            exact hc.contents n (Cache.makeRoom_sublist.1.subset hn)
          · exact hc.contents

/-- The targets of the requests hold no byte that stands between root and path in the keys. -/
def TreeOp.Clean : TreeOp → Prop
  | .request _ _ req => (1 : UInt8) ∉ req.target
  | .read _ _ => True

theorem Sound.step {op : TreeOp} (hs : Sound tree t) (hclean : op.Clean) : Sound tree (t.treeStep tree op) := by
  cases op with
  | request clock h req =>
    have hcaches := serve_caches_sound clock h hs.caches hclean
    have hpending := fun p (hp : _ = Outcome.read p) => serve_pending_sound clock h hs.caches hclean hp
    rw [Thread.treeStep, TreeOp.op, Thread.step]
    cases hserve : serve tree.toFileSystem clock t.caches h req with
    | mk outcome caches =>
      rw [hserve] at hcaches hpending
      cases outcome with
      | respond r => exact ⟨hcaches, hs.pending⟩
      | read p =>
        refine ⟨hcaches, fun q hq => ?_⟩
        rcases List.mem_append.1 hq with hq | hq
        · exact hs.pending q hq
        · rw [List.mem_singleton.1 hq]
          exact hpending p rfl
  | read i now =>
    rw [Thread.treeStep, TreeOp.op, Thread.step]
    cases hp : t.pending[i]? with
    | none => exact hs
    | some p =>
      refine ⟨finish_sound hs.caches (hs.pending p (List.mem_of_getElem? hp)) now, fun q hq => ?_⟩
      exact hs.pending q (List.mem_of_mem_eraseIdx hq)

end Steps

/-- Over every run on a tree that stays as it is, whatever requests wait for their file and with no byte
0x01 in a target, which no parser lets through, each request is answered as without caches, and a
readable file with its bytes, exactly when no cached text is too large for the handler and no empty text
is asked for. -/
theorem served_run_iff (tree : FileTree) (ops : List TreeOp) (hclean : ∀ op ∈ ops, op.Clean) (n : Nat)
    (clock : Clock) (h : Handler) (req : Request) (hn : ops[n]? = some (.request clock h req)) :
    Transparent tree clock (Thread.treeRun tree (ops.take n)).caches h req ∧
        Answered tree clock (Thread.treeRun tree (ops.take n)).caches h req ↔
      ¬ Oversized tree clock (Thread.treeRun tree (ops.take n)).caches h req ∧ ¬ EmptyText tree h req := by
  have hs : Sound tree (Thread.treeRun tree (ops.take n)) :=
    Runs.invariant (P := Sound tree) (Thread.treeStep tree) {} ops ⟨cachesSound_empty tree, fun _ hp => (nomatch hp)⟩
      (fun k op hk hs => hs.step (hclean op (List.mem_of_getElem? hk))) n
  exact served_iff hs.caches (hclean _ (List.mem_of_getElem? hn))

def uniformTree (file : Bytes) : FileTree where
  canonical path := some path
  isDirectory _ := false
  isRegularFile _ := true
  fileSize _ := some file.length
  lastWriteTime _ := some 0
  content _ := some file
  sized _ _ h := by rw [Option.some.inj h]

/-- A text that is asked for again behind its reading. -/
theorem served_run_iff_again :
    let tree := uniformTree (bytes "abc")
    let h := serveStatic tree.toFileSystem (bytes "/r") (bytes "/") 1000
    let req := Thread.getRequest (bytes "/a.txt") []
    let ops : List TreeOp := [.request ⟨0, 0, 0⟩ h req, .read 0 1, .request ⟨2, 2, 2⟩ h req]
    Transparent tree ⟨2, 2, 2⟩ (Thread.treeRun tree (ops.take 2)).caches h req ∧
        Answered tree ⟨2, 2, 2⟩ (Thread.treeRun tree (ops.take 2)).caches h req ↔
      ¬ Oversized tree ⟨2, 2, 2⟩ (Thread.treeRun tree (ops.take 2)).caches h req ∧ ¬ EmptyText tree h req := by
  intro tree h req ops
  refine served_run_iff tree ops (fun op hop => ?_) 2 ⟨2, 2, 2⟩ h req rfl
  have hreq : (1 : UInt8) ∉ req.target := by decide
  rcases List.mem_cons.1 hop with rfl | hop
  · exact hreq
  · rcases List.mem_pair.1 hop with rfl | rfl
    · trivial
    · exact hreq

/-- A text that a handler with a larger limit has read is served past the limit of another, and an empty
text is not served at all. -/
theorem served_past_limit :
    let tree := uniformTree (bytes "abc")
    let large := serveStatic tree.toFileSystem (bytes "/r") (bytes "/") 1000
    let small := serveStatic tree.toFileSystem (bytes "/r") (bytes "/") 2
    let req := Thread.getRequest (bytes "/a.txt") []
    let caches := (Thread.treeRun tree [.request ⟨0, 0, 0⟩ large req, .read 0 1]).caches
    let hollow := uniformTree []
    ¬ Transparent tree ⟨2, 2, 2⟩ caches small req ∧
      (tree.answer (serve tree.toFileSystem ⟨2, 2, 2⟩ caches small req).1).map Response.status = some .hOk ∧
      (tree.answer (serve tree.toFileSystem ⟨2, 2, 2⟩ {} small req).1).map Response.status =
        some .hPayloadTooLarge ∧
      ¬ Answered hollow ⟨0, 0, 0⟩ {} large req := by
  intro tree large small req caches hollow
  have hcached : (tree.answer (serve tree.toFileSystem ⟨2, 2, 2⟩ caches small req).1).map Response.status =
      some .hOk := by decide
  have hplain : (tree.answer (serve tree.toFileSystem ⟨2, 2, 2⟩ {} small req).1).map Response.status =
      some .hPayloadTooLarge := by decide
  refine ⟨fun h => ?_, hcached, hplain, not_answered_empty (cachesSound_empty hollow) (by decide) ?_⟩
  · rw [Transparent] at h
    rw [h, hplain] at hcached
    cases hcached
  · exact ⟨bytes "/r/a.txt", 0, by decide, ⟨by decide, by decide⟩, rfl, rfl, by decide⟩

end StaticFiles

end Hical
