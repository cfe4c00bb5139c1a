import Hical.Lib.Runs
import Hical.StaticFiles.Handler

namespace Hical

namespace StaticFiles
open Lru

/-- A thread with its caches and the requests that wait for their file. -/
structure Thread where
  caches : Caches := {}
  pending : List Pending := []

/-- What happens on a thread: a request to a handler, or the end of a read. -/
inductive Op where
  | request (fs : FileSystem) (clock : Clock) (h : Handler) (req : Request)
  | read (i : Nat) (content : Option Bytes) (now : Nat)

namespace Thread

def step (t : Thread) : Op → Thread
  | .request fs clock h req =>
    match serve fs clock t.caches h req with
    | (.respond _, caches) => { t with caches }
    | (.read p, caches) => { caches, pending := t.pending ++ [p] }
  | .read i content now =>
    match t.pending[i]? with
    | none => t
    | some p => { caches := (finish t.caches p content now).2, pending := t.pending.eraseIdx i }

def run (ops : List Op) : Thread := ops.foldl step {}

/-- In both caches the list and the index are in bijection and within their bounds. -/
def Rep (t : Thread) : Prop :=
  t.caches.path.Rep TlPathCache.kMaxEntries ∧ t.caches.content.Rep TlContentCache.kMaxEntries

end Thread

/-- A path that is looked up anew: it is one of a file and not in the cache, or for too long. -/
def Misses (fs : FileSystem) (clock : Clock) (cache : Cache Bytes PathEntry) (root rel : Bytes) : Prop :=
  (fs.canonical (joinPath root rel)).isSome ∧
    ∀ n, cache.find (cacheKey root rel) = some n → TlPathCache.kTtl ≤ clock.lookedUp - n.entry.cachedAt

/-- A text that is put in the cache once it was read. -/
def Keeps (p : Pending) (content : Option Bytes) : Prop :=
  p.range = none ∧ (∃ file, content = some file ∧ file ≠ []) ∧ p.fileSize ≤ TlContentCache.kMaxFileSize

/-- What goes into a cache is not there any more, once there is room for it. -/
def Thread.Absent (t : Thread) : Op → Prop
  | .request fs clock h req =>
    ∀ root, h.root = some root → Misses fs clock t.caches.path root (relPath h req) →
      (t.caches.path.makeRoom TlPathCache.kMaxEntries).address (cacheKey root (relPath h req)) = none
  | .read i content _ =>
    ∀ p, t.pending[i]? = some p → Keeps p content →
      (t.caches.content.makeRoom TlContentCache.kMaxEntries).address p.target = none

section Steps
variable {fs : FileSystem} {clock : Clock} {root rel target : Bytes} {h : Handler} {req : Request} {now : Nat}

theorem rep_store {K E : Type} [DecidableEq K] {cache : Cache K E} {limit : Nat} (hc : cache.Rep limit)
    (hpos : 0 < limit) (key : K) (entry : E) :
    ((cache.makeRoom limit).insert key entry).Rep limit ↔ (cache.makeRoom limit).address key = none := by
  obtain ⟨hroom, hl, hi⟩ := hc.makeRoom hpos
  constructor
  · intro hrep
    by_contra hne
    exact hroom.not_rep_insert entry (Option.isSome_iff_ne_none.2 hne) hrep
  · exact hroom.insert hl hi entry

theorem rep_resolveAnew {cache : Cache Bytes PathEntry} (hc : cache.Rep TlPathCache.kMaxEntries)
    (hold : ∀ n, cache.find (cacheKey root rel) = some n →
      TlPathCache.kTtl ≤ clock.lookedUp - n.entry.cachedAt) :
    (resolveAnew fs clock cache root rel).2.Rep TlPathCache.kMaxEntries ↔
      (Misses fs clock cache root rel →
        (cache.makeRoom TlPathCache.kMaxEntries).address (cacheKey root rel) = none) := by
  rw [resolveAnew, Misses]
  cases hcan : fs.canonical (joinPath root rel) with
  | none => exact iff_of_true hc fun hm => (nomatch hm.1)
  | some target =>
    dsimp only
    rw [rep_store hc (by decide)]
    exact ⟨fun hnone _ => hnone, fun hall => hall ⟨rfl, hold⟩⟩

theorem rep_resolve {cache : Cache Bytes PathEntry} (hc : cache.Rep TlPathCache.kMaxEntries) :
    (resolve fs clock cache root rel).2.Rep TlPathCache.kMaxEntries ↔
      (Misses fs clock cache root rel →
        (cache.makeRoom TlPathCache.kMaxEntries).address (cacheKey root rel) = none) := by
  rw [resolve]
  cases hfind : cache.find (cacheKey root rel) with
  | none =>
    refine rep_resolveAnew hc fun n hn => ?_
    rw [hfind] at hn
    cases hn
  | some n =>
    dsimp only
    split
    · next hyoung =>
      refine iff_of_true (hc.promote (Cache.find_eq_some hfind).2) fun hm => ?_
      exact absurd hyoung (Nat.not_lt_of_le (hm.2 n hfind))
    · next hold =>
      refine rep_resolveAnew hc fun m hm => ?_
      rw [hfind] at hm
      cases hm
      exact Nat.le_of_not_lt hold

theorem rep_lookUpContent (fs : FileSystem) (now : Nat) (target : Bytes) {cache : Cache Bytes ContentEntry} {limit : Nat} (hc : cache.Rep limit) :
    (lookUpContent fs now cache target).2.Rep limit ∧
      ∀ n, (lookUpContent fs now cache target).1 = some n →
        n ∈ (lookUpContent fs now cache target).2.lruList := by
  rw [lookUpContent]
  cases hfind : cache.find target with
  | none => exact ⟨hc, fun n hn => (nomatch hn)⟩
  | some n =>
    have hmem := (Cache.find_eq_some hfind).2
    dsimp only
    split
    · refine ⟨hc, fun m hm => ?_⟩
      cases hm
      exact hmem
    · split
      · refine ⟨hc.update n.addr fun e => { e with cachedAt := now }, fun m hm => ?_⟩
        cases hm
        refine List.mem_map.2 ⟨n, hmem, ?_⟩
        rw [if_pos rfl]
      · exact ⟨hc.erase target, fun m hm => (nomatch hm)⟩

theorem rep_serveTarget {cache : Cache Bytes ContentEntry} {limit : Nat} (hc : cache.Rep limit) :
    (serveTarget fs clock cache h req target).2.Rep limit := by
  obtain ⟨hrep, hmem⟩ := rep_lookUpContent fs clock.served target hc
  rw [serveTarget]
  split
  · cases hl : lookUpContent fs clock.served cache target with
    | mk found cache' =>
      rw [hl] at hrep hmem
      cases found with
      | none => exact hrep
      | some n => exact hrep.promote (hmem n rfl)
  · exact hc

theorem serve_caches (fs : FileSystem) (clock : Clock) (c : Caches) (h : Handler) (req : Request) :
    (∀ root, h.root = some root →
      (serve fs clock c h req).2.path = (resolve fs clock c.path root (relPath h req)).2) ∧
    (h.root = none → (serve fs clock c h req).2.path = c.path) ∧
    ((serve fs clock c h req).2.content = c.content ∨
      ∃ target, (serve fs clock c h req).2.content = (serveTarget fs clock c.content h req target).2) := by
  rw [serve]
  cases hroot : h.root with
  | none => exact ⟨fun root hr => (nomatch hr), fun _ => rfl, .inl rfl⟩
  | some root =>
    dsimp only
    cases hres : resolve fs clock c.path root (relPath h req) with
    | mk found path =>
      have hpath : ∀ r, some root = some r → path = (resolve fs clock c.path r (relPath h req)).2 := by
        intro r hr
        cases hr
        rw [hres]
      cases found with
      | none => exact ⟨hpath, fun hr => (nomatch hr), .inl rfl⟩
      | some target =>
        dsimp only
        split
        · exact ⟨hpath, fun hr => (nomatch hr), .inl rfl⟩
        · split
          · exact ⟨hpath, fun hr => (nomatch hr), .inl rfl⟩
          · next target' _ =>
            split
            · exact ⟨hpath, fun hr => (nomatch hr), .inl rfl⟩
            · exact ⟨hpath, fun hr => (nomatch hr), .inr ⟨target', rfl⟩⟩

theorem rep_finish {c : Caches} (p : Pending) (content : Option Bytes) (now : Nat)
    (hc : c.content.Rep TlContentCache.kMaxEntries) :
    (finish c p content now).2.path = c.path ∧
      ((finish c p content now).2.content.Rep TlContentCache.kMaxEntries ↔
        (Keeps p content → (c.content.makeRoom TlContentCache.kMaxEntries).address p.target = none)) := by
  cases content with
  | none => exact ⟨rfl, iff_of_true hc fun hk => (nomatch hk.2.1.choose_spec.1)⟩
  | some file =>
    rw [finish]
    cases hrange : p.range with
    | some range =>
      refine ⟨rfl, iff_of_true hc fun hk => ?_⟩
      have hnone := hk.1
      rw [hrange] at hnone
      cases hnone
    | none =>
      dsimp only
      split
      · next hempty =>
        refine ⟨rfl, iff_of_true hc fun hk => ?_⟩
        obtain ⟨file', heq, hne⟩ := hk.2.1
        cases heq
        exact absurd hempty hne
      · next hne =>
        refine ⟨rfl, ?_⟩
        dsimp only
        rw [cacheContent]
        split
        · next hsize =>
          rw [rep_store hc (by decide)]
          exact ⟨fun hl _ => hl, fun hall => hall ⟨hrange, ⟨file, rfl, hne⟩, hsize⟩⟩
        · next hsize => exact iff_of_true hc fun hk => absurd hk.2.2 hsize

end Steps

namespace Thread

theorem rep_start : ({} : Thread).Rep := ⟨Cache.rep_empty _, Cache.rep_empty _⟩

theorem rep_step {t : Thread} (ht : t.Rep) (op : Op) : (t.step op).Rep ↔ t.Absent op := by
  cases op with
  | request fs clock h req =>
    obtain ⟨hroot, hnone, hcontent⟩ := serve_caches fs clock t.caches h req
    have hcaches : (t.step (.request fs clock h req)).caches = (serve fs clock t.caches h req).2 := by
      rw [step]
      rcases serve fs clock t.caches h req with ⟨r | p, caches⟩
      · rfl
      · rfl
    have hrep : (serve fs clock t.caches h req).2.content.Rep TlContentCache.kMaxEntries := by
      rcases hcontent with heq | ⟨target, heq⟩
      · rw [heq]
        exact ht.2
      · rw [heq]
        exact rep_serveTarget ht.2
    rw [Rep, hcaches, Absent]
    cases hr : h.root with
    | none =>
      rw [hnone hr]
      exact iff_of_true ⟨ht.1, hrep⟩ fun root heq => (nomatch heq)
    | some root =>
      rw [hroot root hr, rep_resolve ht.1]
      constructor
      · rintro ⟨hall, -⟩ root' heq
        cases heq
        exact hall
      · exact fun hall => ⟨hall root rfl, hrep⟩
  | read i content now =>
    rw [step, Absent]
    cases hp : t.pending[i]? with
    | none => exact iff_of_true ht fun p heq => (nomatch heq)
    | some p =>
      obtain ⟨hpath, hiff⟩ := rep_finish p content now ht.2
      rw [Rep]
      dsimp only
      rw [hpath, hiff]
      constructor
      · rintro ⟨-, hall⟩ p' heq
        cases heq
        exact hall
      · exact fun hall => ⟨ht.1, hall p rfl⟩

/-- Over every run, the caches are in order all along exactly as long as nothing goes into a cache that is
in it. -/
theorem rep_run_iff (ops : List Op) :
    (∀ n, (run (ops.take n)).Rep) ↔ ∀ n op, ops[n]? = some op → (run (ops.take n)).Absent op := by
  constructor
  · intro hall n op hn
    have hnext := hall (n + 1)
    rw [run, Runs.take_succ step {} ops hn] at hnext
    exact (rep_step (hall n) op).1 hnext
  · intro habsent
    exact Runs.invariant (P := Rep) step {} ops rep_start fun n op hn ht =>
      (rep_step ht op).2 (habsent n op hn)

def flatTree : FileSystem where
  canonical path := some path
  isDirectory _ := false
  isRegularFile _ := true
  fileSize _ := some 3
  lastWriteTime _ := some 0

def getRequest (target : Bytes) (headers : Fields) : Request where
  method := .hGet
  target := target
  httpVersionMinor := 1
  headers := headers
  body := []
  keepAlive := true
  expectContinue := false
  upgradePreScanned := none
  params := []

/-- A path that is asked for again after its entry expired, and a text that two requests read at a time,
stand in the list twice. -/
theorem listed_twice :
    let get (now : Nat) (name : String) : Op :=
      .request flatTree ⟨now, now, now⟩ (serveStatic flatTree (bytes "/r") (bytes "/") 1000)
        (getRequest (bytes name) [])
    let expired := run [get 0 "/a.png", get TlPathCache.kTtl "/a.png"]
    let concurrent := run [get 0 "/a.txt", get 0 "/a.txt", .read 0 (bytes "abc") 1, .read 0 (bytes "abc") 2]
    ¬ expired.Rep ∧ expired.caches.path.lruList.length = 2 ∧ expired.caches.path.index.length = 1 ∧
      ¬ concurrent.Rep ∧ concurrent.caches.content.lruList.length = 2 ∧
        concurrent.caches.content.index.length = 1 := by
  intro get expired concurrent
  have hpath : expired.caches.path.lruList.length = 2 ∧ expired.caches.path.index.length = 1 := by decide
  have hcontent : concurrent.caches.content.lruList.length = 2 ∧
      concurrent.caches.content.index.length = 1 := by decide
  refine ⟨fun hrep => ?_, hpath.1, hpath.2, fun hrep => ?_, hcontent.1, hcontent.2⟩
  · have hle := hrep.1.length_le
    rw [hpath.1, hpath.2] at hle
    exact absurd hle (by decide)
  · have hle := hrep.2.length_le
    rw [hcontent.1, hcontent.2] at hle
    exact absurd hle (by decide)

end Thread

end StaticFiles

end Hical
