import Hical.StaticFiles.RangeAnswers

namespace Hical

namespace StaticFiles
open Lru

/-- A tree with links; canonical paths are free of them. -/
structure LinkTree extends FileSystem where
  canonical_self : ∀ path target, canonical path = some target → canonical target = some target

/-- A request that waits for its file. -/
structure Waiting where
  pending : Pending
  tree : LinkTree
  handler : Handler

/-- The file whose bytes were read for a path. -/
structure Origin where
  path : Bytes
  file : Bytes

/-- A thread, with the trees of the requests that wait and with the files that were read so far. -/
structure Traced where
  caches : Caches := {}
  waiting : List Waiting := []
  origins : List Origin := []

/-- A request to a handler while the tree is like this, or the end of a read. -/
inductive Event where
  | request (tree : LinkTree) (clock : Clock) (h : Handler) (req : Request)
  | read (i : Nat) (content : Option Bytes) (now : Nat)

def Event.op : Event → Op
  | .request tree clock h req => .request tree.toFileSystem clock h req
  | .read i content now => .read i content now

def LinkTree.opened (tree : LinkTree) (path : Bytes) : List Bytes := (tree.canonical path).toList

namespace Traced

def thread (s : Traced) : Thread := ⟨s.caches, s.waiting.map Waiting.pending⟩

def step (s : Traced) : Event → Traced
  | .request tree clock h req =>
    match serve tree.toFileSystem clock s.caches h req with
    | (.respond _, caches) => { s with caches }
    | (.read p, caches) => { s with caches, waiting := s.waiting ++ [⟨p, tree, h⟩] }
  | .read i content now =>
    match s.waiting[i]? with
    | none => s
    | some w =>
      { caches := (finish s.caches w.pending content now).2
        waiting := s.waiting.eraseIdx i
        origins := (w.tree.opened w.pending.target).map (⟨w.pending.target, ·⟩) ++ s.origins }

def run (events : List Event) : Traced := events.foldl step {}

def hit (fs : FileSystem) (clock : Clock) (c : Caches) (h : Handler) (req : Request) :
    Option (Node Bytes ContentEntry) :=
  match servedFile fs clock c h req with
  | none => none
  | some target =>
    if isTextMime (mimeType (extension target)) && req.headers.find (bytes "Range") == [] then
      (lookUpContent fs clock.served c.content target).1
    else none

def filesOf (s : Traced) (path : Bytes) : List Bytes := (s.origins.filter fun o => o.path == path).map Origin.file

/-- The files whose bytes an event returns, with the handler that returns them: what was read for a cached
text, and what is opened for the answer. -/
def returned (s : Traced) : Event → List (Handler × Bytes)
  | .request tree clock h req =>
    match (serve tree.toFileSystem clock s.caches h req).1 with
    | .read _ => []
    | .respond r =>
      ((match hit tree.toFileSystem clock s.caches h req with
        | none => []
        | some n => s.filesOf n.key) ++
      (match r.fileBody with
        | none => []
        | some fb => tree.opened fb.path)).map (h, ·)
  | .read i _ _ =>
    match s.waiting[i]? with
    | none => []
    | some w => (w.tree.opened w.pending.target).map (w.handler, ·)

/-- A file path that the cache answers with and that passes the check is still its own canonical path. -/
def Fresh (s : Traced) : Event → Prop
  | .request tree clock h req => ∀ root n, h.root = some root →
      s.caches.path.find (cacheKey root (relPath h req)) = some n →
      clock.lookedUp - n.entry.cachedAt < TlPathCache.kTtl → isSafePath root n.entry.canonical = true →
      tree.isDirectory n.entry.canonical = false → tree.canonical n.entry.canonical = some n.entry.canonical
  | .read _ _ _ => True

end Traced

/-- The root of the handler is a prefix of the path, component by component. -/
def Inside (h : Handler) (path : Bytes) : Prop := ∃ root, h.root = some root ∧ isSafePath root path = true

namespace Traced

theorem thread_step (s : Traced) (e : Event) : (s.step e).thread = s.thread.step e.op := by
  have hcaches : s.thread.caches = s.caches := rfl
  have hpending : s.thread.pending = s.waiting.map Waiting.pending := rfl
  cases e with
  | request tree clock h req =>
    rw [Event.op, Thread.step, step, hcaches, hpending]
    cases serve tree.toFileSystem clock s.caches h req with
    | mk outcome caches =>
      cases outcome with
      | respond r => rfl
      | read p =>
        rw [thread, List.map_append]
        rfl
  | read i content now =>
    rw [Event.op, Thread.step, step, hcaches, hpending, List.getElem?_map]
    cases s.waiting[i]? with
    | none => rfl
    | some w =>
      rw [thread, List.eraseIdx_map]
      rfl

/-- What the thread keeps: each text stands under the canonical path of its file, and each request waits
for a file of its root. -/
structure Sheltered (s : Traced) : Prop where
  coherent : s.caches.content.Coherent
  origins : ∀ o ∈ s.origins, o.file = o.path
  waiting : ∀ w ∈ s.waiting, w.tree.canonical w.pending.target = some w.pending.target ∧
    Inside w.handler w.pending.target

section Requests
variable {s : Traced} {tree : LinkTree} {fs : FileSystem} {clock : Clock} {c : Caches} {h : Handler}
  {req : Request} {root rel target mime : Bytes}

theorem resolveAnew_canonical {cache : Cache Bytes PathEntry}
    (hfound : (resolveAnew fs clock cache root rel).1 = some target) :
    fs.canonical (joinPath root rel) = some target := by
  rw [resolveAnew] at hfound
  cases hcan : fs.canonical (joinPath root rel) with
  | none =>
    rw [hcan] at hfound
    cases hfound
  | some canonical =>
    rw [hcan] at hfound
    exact hfound

theorem resolve_cases {cache : Cache Bytes PathEntry}
    (hfound : (resolve fs clock cache root rel).1 = some target) :
    (∃ n, cache.find (cacheKey root rel) = some n ∧ clock.lookedUp - n.entry.cachedAt < TlPathCache.kTtl ∧
        target = n.entry.canonical) ∨
      fs.canonical (joinPath root rel) = some target := by
  rw [resolve] at hfound
  cases hfind : cache.find (cacheKey root rel) with
  | none =>
    rw [hfind] at hfound
    exact .inr (resolveAnew_canonical hfound)
  | some n =>
    rw [hfind] at hfound
    dsimp only at hfound
    split at hfound
    · next hage => exact .inl ⟨n, rfl, hage, (Option.some.inj hfound).symm⟩
    · exact .inr (resolveAnew_canonical hfound)

theorem servedFile_self (hfresh : s.Fresh (.request tree clock h req))
    (hserved : servedFile tree.toFileSystem clock s.caches h req = some target) :
    tree.canonical target = some target ∧ Inside h target := by
  rw [servedFile] at hserved
  cases hroot : h.root with
  | none =>
    rw [hroot] at hserved
    cases hserved
  | some root =>
    rw [hroot] at hserved
    dsimp only at hserved
    cases hresolve : (resolve tree.toFileSystem clock s.caches.path root (relPath h req)).1 with
    | none =>
      rw [hresolve] at hserved
      cases hserved
    | some found =>
      rw [hresolve] at hserved
      dsimp only at hserved
      split at hserved
      · cases hserved
      · next hunsafe =>
        have hsafe : isSafePath root found = true := by
          rw [Bool.not_eq_true', Bool.not_eq_false] at hunsafe
          exact hunsafe
        rw [indexed] at hserved
        by_cases hdir : tree.isDirectory found = true
        · rw [if_pos hdir] at hserved
          cases hindex : tree.canonical (joinPath found (bytes "index.html")) with
          | none =>
            rw [hindex] at hserved
            cases hserved
          | some index =>
            rw [hindex] at hserved
            dsimp only at hserved
            by_cases hinside : isSafePath root index = true
            · rw [if_pos hinside] at hserved
              dsimp only at hserved
              split at hserved
              · cases hserved
                exact ⟨tree.canonical_self _ _ hindex, root, hroot, hinside⟩
              · cases hserved
            · rw [if_neg hinside] at hserved
              cases hserved
        · rw [if_neg hdir] at hserved
          dsimp only at hserved
          split at hserved
          · cases hserved
            have hself : tree.canonical target = some target := by
              obtain ⟨n, hfind, hage, hfound⟩ | hcan := resolve_cases hresolve
              · rw [hfound] at hsafe hdir ⊢
                exact hfresh root n hroot hfind hage hsafe (eq_false_of_ne_true hdir)
              · exact tree.canonical_self _ _ hcan
            exact ⟨hself, root, hroot, hsafe⟩
          · cases hserved

def About (path : Bytes) : Outcome → Prop
  | .read p => p.target = path
  | .respond r => ∀ fb, r.fileBody = some fb → fb.path = path

theorem about_respond {r : Response} (hr : r.fileBody = none) : About target (.respond r) := by
  intro fb hfb
  rw [hr] at hfb
  cases hfb

theorem fileBody_plainText (code : HttpStatusCode) (body : Bytes) : (Response.plainText code body).fileBody = none := by
  rw [Response.plainText, Response.setBody_fileBody]
  rfl

theorem fileBody_noSniff (r : Response) : r.noSniff.fileBody = r.fileBody := Response.setHeader_fileBody

theorem fileBody_fileHeaders (r : Response) (etag : Bytes) : (fileHeaders r etag).fileBody = r.fileBody := by
  rw [fileHeaders, fileBody_noSniff, Response.setHeader_fileBody, Response.setHeader_fileBody]

theorem fileBody_notModified (etag : Bytes) : (notModified etag).fileBody = none := by
  have hprepare : ∀ r : Response, r.preparePayload.fileBody = r.fileBody := by
    intro r
    rw [Response.preparePayload]
    split
    · rfl
    · rfl
  rw [notModified, hprepare, Response.setHeader_fileBody]
  rfl

theorem about_setFileBody {r : Response} {path : Bytes} {offset length : Nat} (hr : r.fileBody = none) {fb : FileBody}
    (hfb : (r.setFileBody path offset length mime).fileBody = some fb) : fb.path = path := by
  rw [Response.setFileBody] at hfb
  split at hfb
  · rw [hr] at hfb
    cases hfb
  · cases hfb
    rfl

theorem about_wholeFile (p : Pending) : About p.target (wholeFile p) := by
  rw [wholeFile]
  split
  · rfl
  · intro fb hfb
    rw [fileBody_fileHeaders] at hfb
    exact about_setFileBody rfl hfb

theorem about_rangeOutcome (p : Pending) (range : ByteRange) : About p.target (rangeOutcome p range) := by
  rw [rangeOutcome]
  split
  · rfl
  · intro fb hfb
    rw [partialContent, fileBody_fileHeaders, Response.setHeader_fileBody] at hfb
    exact about_setFileBody rfl hfb

theorem about_serveFile (fs : FileSystem) (h : Handler) (req : Request) (target mime : Bytes) :
    About target (serveFile fs h req target mime) := by
  have herror : About target (.respond .serverError) := about_respond (by
    rw [Response.serverError, fileBody_noSniff, fileBody_plainText])
  obtain hwhole | ⟨size, hrefused⟩ | ⟨p, range, multi, rfl, -, -, -, hrange⟩ := serveFile_cases fs h req target mime
  · rw [hwhole, serveFile]
    cases fs.fileSize target with
    | none => exact herror
    | some size =>
      dsimp only
      split
      · exact about_respond (fileBody_plainText ..)
      · cases fs.lastWriteTime target with
        | none => exact herror
        | some lastWrite =>
          dsimp only
          split
          · exact about_respond (fileBody_notModified _)
          · have hnone : req.withoutRange.headers.find (bytes "Range") = [] := Fields.find_erase_self ..
            rw [hnone]
            exact about_wholeFile ⟨target, mime, makeEtag size lastWrite, size, lastWrite, none⟩
  · rw [hrefused]
    apply about_respond
    rw [Response.rangeNotSatisfiable, Response.setBody_fileBody, Response.setHeader_fileBody]
    rfl
  · rw [hrange]
    exact about_rangeOutcome p range

theorem about_serveTarget (fs : FileSystem) (clock : Clock) (cache : Cache Bytes ContentEntry) (h : Handler)
    (req : Request) (target : Bytes) : About target (serveTarget fs clock cache h req target).1 := by
  rw [serveTarget]
  split
  · cases lookUpContent fs clock.served cache target with
    | mk found cache =>
      cases found with
      | none => exact about_serveFile ..
      | some n =>
        apply about_respond
        split
        · exact fileBody_notModified _
        · exact (wholeText_ok ..).2.1
  · exact about_serveFile ..

end Requests

section Steps
variable {s : Traced} {tree : LinkTree} {fs : FileSystem} {clock : Clock} {c : Caches} {h : Handler}
  {req : Request} {target : Bytes} {cache : Cache Bytes ContentEntry}

theorem coherent_lookUpContent (fs : FileSystem) (now : Nat) (target : Bytes) (hc : cache.Coherent) :
    (lookUpContent fs now cache target).2.Coherent ∧
      ∀ n, (lookUpContent fs now cache target).1 = some n →
        n.key = target ∧ n ∈ (lookUpContent fs now cache target).2.lruList := by
  rw [lookUpContent]
  cases hfind : cache.find target with
  | none => exact ⟨hc, fun n hn => (by cases hn)⟩
  | some n =>
    have hmem := (Cache.find_eq_some hfind).2
    have hkey := hc.key_of_find hfind
    dsimp only
    split
    · apply And.intro hc
      intro m hm
      cases hm
      exact ⟨hkey, hmem⟩
    · split
      · apply And.intro (hc.update n.addr fun e => { e with cachedAt := now })
        intro m hm
        cases hm
        apply And.intro hkey
        apply List.mem_map.2 ⟨n, hmem, _⟩
        rw [if_pos rfl]
      · exact ⟨hc.erase target, fun m hm => (by cases hm)⟩

theorem coherent_serveTarget (hc : cache.Coherent) : (serveTarget fs clock cache h req target).2.Coherent := by
  obtain ⟨hcoherent, hfound⟩ := coherent_lookUpContent fs clock.served target hc
  rw [serveTarget]
  split
  · cases hl : lookUpContent fs clock.served cache target with
    | mk found cache' =>
      rw [hl] at hcoherent hfound
      cases found with
      | none => exact hcoherent
      | some n => exact hcoherent.promote (hfound n rfl).2
  · exact hc

theorem coherent_serve (hc : c.content.Coherent) : (serve fs clock c h req).2.content.Coherent := by
  obtain ⟨-, -, heq | ⟨target, heq⟩⟩ := serve_caches fs clock c h req
  · rw [heq]
    exact hc
  · rw [heq]
    exact coherent_serveTarget hc

theorem coherent_finish (hc : c.content.Coherent) (p : Pending) (content : Option Bytes) (now : Nat) :
    (finish c p content now).2.content.Coherent := by
  cases content with
  | none => exact hc
  | some content =>
    rw [finish]
    cases p.range with
    | some range => exact hc
    | none =>
      dsimp only
      split
      · exact hc
      · dsimp only
        rw [cacheContent]
        split
        · exact (hc.makeRoom _).insert _ _
        · exact hc

theorem hit_served {n : Node Bytes ContentEntry} (hc : c.content.Coherent) (hhit : hit fs clock c h req = some n) :
    servedFile fs clock c h req = some n.key := by
  rw [hit] at hhit
  cases hserved : servedFile fs clock c h req with
  | none =>
    rw [hserved] at hhit
    cases hhit
  | some target =>
    rw [hserved] at hhit
    dsimp only at hhit
    split at hhit
    · rw [((coherent_lookUpContent fs clock.served target hc).2 n hhit).1]
    · cases hhit

theorem serve_about (fs : FileSystem) (clock : Clock) (c : Caches) (h : Handler) (req : Request) :
    (∃ target, servedFile fs clock c h req = some target ∧ About target (serve fs clock c h req).1) ∨
      ∃ r, r.fileBody = none ∧ (serve fs clock c h req).1 = .respond r := by
  cases hserved : servedFile fs clock c h req with
  | some target =>
    have hserve : (serve fs clock c h req).1 = (serveTarget fs clock c.content h req target).1 :=
      serve_served hserved rfl c.content
    have habout : About target (serve fs clock c h req).1 := by
      rw [hserve]
      exact about_serveTarget ..
    exact .inl ⟨target, rfl, habout⟩
  | none =>
    obtain ⟨r, hrefusal, hall⟩ := serve_refused hserved
    have hnone : r.fileBody = none := by
      obtain rfl | rfl := hrefusal
      · exact (fileBody_noSniff _).trans (fileBody_plainText ..)
      · exact fileBody_plainText ..
    exact .inr ⟨r, hnone, hall c.content req rfl⟩

theorem mem_opened {path file : Bytes} (hself : tree.canonical path = some path) (hfile : file ∈ tree.opened path) :
    file = path := by
  rw [LinkTree.opened, hself] at hfile
  exact List.mem_singleton.1 hfile

theorem Sheltered.step (hs : s.Sheltered) {e : Event} (hfresh : s.Fresh e) : (s.step e).Sheltered := by
  cases e with
  | request tree clock h req =>
    have hcoherent : (serve tree.toFileSystem clock s.caches h req).2.content.Coherent := coherent_serve hs.coherent
    have habout := serve_about tree.toFileSystem clock s.caches h req
    rw [Traced.step]
    cases hserve : serve tree.toFileSystem clock s.caches h req with
    | mk outcome caches =>
      rw [hserve] at hcoherent habout
      cases outcome with
      | respond r => exact ⟨hcoherent, hs.origins, hs.waiting⟩
      | read p =>
        refine ⟨hcoherent, hs.origins, ?_⟩
        intro w hw
        cases List.mem_append.1 hw with
        | inl hw => exact hs.waiting w hw
        | inr hw =>
          rw [List.mem_singleton.1 hw]
          obtain ⟨target, hserved, htarget⟩ | ⟨r, -, hr⟩ := habout
          · have hp : p.target = target := htarget
            dsimp only
            rw [hp]
            exact servedFile_self hfresh hserved
          · cases hr
  | read i content now =>
    rw [Traced.step]
    cases hw : s.waiting[i]? with
    | none => exact hs
    | some w =>
      apply Sheltered.mk (coherent_finish hs.coherent _ _ _)
      · intro o ho
        cases List.mem_append.1 ho with
        | inl ho =>
          obtain ⟨file, hfile, rfl⟩ := List.mem_map.1 ho
          exact mem_opened (hs.waiting w (List.mem_of_getElem? hw)).1 hfile
        | inr ho => exact hs.origins o ho
      · intro w' hw'
        exact hs.waiting w' (List.mem_of_mem_eraseIdx hw')

theorem Sheltered.returned (hs : s.Sheltered) {e : Event} (hfresh : s.Fresh e) :
    ∀ f ∈ s.returned e, Inside f.1 f.2 := by
  intro f hf
  cases e with
  | request tree clock h req =>
    have habout := serve_about tree.toFileSystem clock s.caches h req
    rw [Traced.returned] at hf
    cases hserve : (serve tree.toFileSystem clock s.caches h req).1 with
    | read p =>
      rw [hserve] at hf
      cases hf
    | respond r =>
      rw [hserve] at hf habout
      obtain ⟨file, hfile, rfl⟩ := List.mem_map.1 hf
      cases List.mem_append.1 hfile with
      | inl hcached =>
        cases hhit : hit tree.toFileSystem clock s.caches h req with
        | none =>
          rw [hhit] at hcached
          cases hcached
        | some n =>
          rw [hhit] at hcached
          obtain ⟨o, ho, rfl⟩ := List.mem_map.1 hcached
          obtain ⟨hmem, hkey⟩ := List.mem_filter.1 ho
          rw [hs.origins o hmem, beq_iff_eq.1 hkey]
          exact (servedFile_self hfresh (hit_served hs.coherent hhit)).2
      | inr hopened =>
        cases hfb : r.fileBody with
        | none =>
          rw [hfb] at hopened
          cases hopened
        | some fb =>
          rw [hfb] at hopened
          obtain ⟨target, hserved, htarget⟩ | ⟨r', hnone, hr⟩ := habout
          · obtain ⟨hself, hinside⟩ := servedFile_self hfresh hserved
            have hpath : fb.path = target := htarget fb hfb
            dsimp only at hopened
            rw [hpath] at hopened
            rw [mem_opened hself hopened]
            exact hinside
          · cases hr
            rw [hnone] at hfb
            cases hfb
  | read i content now =>
    rw [Traced.returned] at hf
    cases hw : s.waiting[i]? with
    | none =>
      rw [hw] at hf
      cases hf
    | some w =>
      rw [hw] at hf
      obtain ⟨file, hfile, rfl⟩ := List.mem_map.1 hf
      obtain ⟨hself, hinside⟩ := hs.waiting w (List.mem_of_getElem? hw)
      rw [mem_opened hself hfile]
      exact hinside

end Steps

theorem sheltered_start : ({} : Traced).Sheltered :=
  ⟨Cache.coherent_empty, fun _ ho => (nomatch ho), fun _ hw => (nomatch hw)⟩

/-- On a thread where each path that the cache answers with is still its own canonical path, every file
whose bytes are returned has a canonical path below the root of the handler that returns it. -/
theorem returned_inside (events : List Event) (hfresh : Runs.Along step Fresh {} events) (n : Nat) (e : Event)
    (hn : events[n]? = some e) : ∀ f ∈ (run (events.take n)).returned e, Inside f.1 f.2 := by
  have hs : (run (events.take n)).Sheltered :=
    hfresh.invariant sheltered_start (fun s e hs he => hs.step he) n
  exact hs.returned (hfresh.at hn)

section Unchanged
variable {tree : LinkTree} {clock : Clock} {root rel : Bytes} {cache : Cache Bytes PathEntry}

/-- The entries of the path cache are their own canonical paths. -/
def Selfsame (tree : LinkTree) (cache : Cache Bytes PathEntry) : Prop :=
  ∀ n ∈ cache.lruList, tree.canonical n.entry.canonical = some n.entry.canonical

theorem Selfsame.resolveAnew (hs : Selfsame tree cache) :
    Selfsame tree (resolveAnew tree.toFileSystem clock cache root rel).2 := by
  rw [StaticFiles.resolveAnew]
  cases hcan : tree.canonical (joinPath root rel) with
  | none => exact hs
  | some target =>
    apply Cache.forall_insert
    · intro n hn
      exact hs n (Cache.makeRoom_sublist.1.subset hn)
    · exact tree.canonical_self _ _ hcan

theorem Selfsame.resolve (hs : Selfsame tree cache) :
    Selfsame tree (resolve tree.toFileSystem clock cache root rel).2 := by
  rw [StaticFiles.resolve]
  cases hfind : cache.find (cacheKey root rel) with
  | none => exact hs.resolveAnew
  | some n =>
    dsimp only
    split
    · exact Cache.forall_promote hs (Cache.find_eq_some hfind).2
    · exact hs.resolveAnew

theorem path_finish (c : Caches) (p : Pending) (content : Option Bytes) (now : Nat) :
    (finish c p content now).2.path = c.path := by
  cases content with
  | none => rfl
  | some content =>
    rw [finish]
    cases p.range with
    | some range => rfl
    | none =>
      dsimp only
      split
      · rfl
      · rfl

def Event.On (tree : LinkTree) : Event → Prop
  | .request tree' _ _ _ => tree' = tree
  | .read _ _ _ => True

theorem fresh_on (tree : LinkTree) (events : List Event) (hon : ∀ e ∈ events, Event.On tree e) :
    Runs.Along step Fresh {} events := by
  apply Runs.Along.of_invariant (I := fun s : Traced => Selfsame tree s.caches.path)
  · exact fun n hn => (nomatch hn)
  · intro s e he hs
    cases e with
    | request tree' clock h req =>
      have htree : tree' = tree := hon _ he
      subst htree
      apply And.intro
      · intro root n _ hfind _ _ _
        exact hs n (Cache.find_eq_some hfind).2
      · obtain ⟨hroot, hnone, -⟩ := serve_caches tree'.toFileSystem clock s.caches h req
        have hpath : Selfsame tree' (serve tree'.toFileSystem clock s.caches h req).2.path := by
          cases hr : h.root with
          | none =>
            rw [hnone hr]
            exact hs
          | some root =>
            rw [hroot root hr]
            exact hs.resolve
        rw [step]
        cases hserve : serve tree'.toFileSystem clock s.caches h req with
        | mk outcome caches =>
          rw [hserve] at hpath
          cases outcome with
          | respond r => exact hpath
          | read p => exact hpath
    | read i content now =>
      apply And.intro trivial
      rw [step]
      cases s.waiting[i]? with
      | none => exact hs
      | some w =>
        dsimp only
        rw [path_finish]
        exact hs

end Unchanged

def linkedTree (link file : Bytes) : LinkTree where
  canonical path := some (if path = link then file else path)
  isDirectory _ := false
  isRegularFile _ := true
  fileSize _ := some 3
  lastWriteTime _ := some 0
  canonical_self path target h := by
    have htarget := Option.some.inj h
    by_cases hpath : path = link
    · rw [if_pos hpath] at htarget
      rw [htarget, ite_self]
    · rw [if_neg hpath] at htarget
      rw [← htarget, if_neg hpath]

/-- A file that is asked for twice. -/
theorem returned_inside_twice :
    let tree := linkedTree (bytes "/r/b") (bytes "/r/a")
    let h := serveStatic tree.toFileSystem (bytes "/r") (bytes "/") 1000
    let get (now : Nat) : Event := .request tree ⟨now, now, now⟩ h (Thread.getRequest (bytes "/b") [])
    ∀ f ∈ (run [get 0]).returned (get 1), Inside f.1 f.2 := by
  intro tree h get
  have hon : ∀ e ∈ [get 0, get 1], Event.On tree e := by
    intro e he
    obtain rfl | rfl := List.mem_pair.1 he
    · rfl
    · rfl
  exact returned_inside [get 0, get 1] (fresh_on tree _ hon) 1 (get 1) rfl

/-- A path that has become a link out of the root is served as long as the cache holds it. -/
theorem link_followed :
    let tree := linkedTree (bytes "/r/b") (bytes "/r/b")
    let later := linkedTree (bytes "/r/b") (bytes "/etc/b")
    let h := serveStatic tree.toFileSystem (bytes "/r") (bytes "/") 1000
    let get (tree : LinkTree) (now : Nat) : Event :=
      .request tree ⟨now, now, now⟩ h (Thread.getRequest (bytes "/b") [])
    ((run [get tree 0]).returned (get later 1)).map Prod.snd = [bytes "/etc/b"] ∧
      ¬ Inside h (bytes "/etc/b") := by
  intro tree later h get
  apply And.intro
  · decide
  · rintro ⟨root, hroot, hsafe⟩
    cases hroot
    exact absurd hsafe (by decide)

end Traced

end StaticFiles

end Hical
