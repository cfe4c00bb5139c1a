import Hical.Bytes
import Hical.Lib.Recency

/-! The caches of prepared statements of the two database connections. -/

namespace Hical.Db
open Lru

/-- `StmtCache`, with `lruList_` and `map_`. -/
structure StmtCache (S : Type) where
  maxSize : Nat
  cache : Cache Bytes S := {}

namespace StmtCache
variable {S : Type}

def find (c : StmtCache S) (sql : Bytes) : Option S × StmtCache S :=
  if c.maxSize = 0 then (none, c)
  else match c.cache.find sql with
    | none => (none, c)
    | some n => (some n.entry, { c with cache := c.cache.promote n })

/-- A node at the front, to which `map_[sql]` is set. -/
def emplaceFront (cache : Cache Bytes S) (sql : Bytes) (stmt : S) : Cache Bytes S where
  lruList := ⟨cache.made, sql, stmt⟩ :: cache.lruList
  index := (sql, cache.made) :: cache.index.filter fun e => e.1 != sql
  made := cache.made + 1

def insert (c : StmtCache S) (sql : Bytes) (stmt : S) : Option S × StmtCache S :=
  if c.maxSize = 0 then (some stmt, c)
  else match c.cache.find sql with
    | some n => (none, { c with cache := (c.cache.update n.addr fun _ => stmt).promote { n with entry := stmt } })
    | none =>
      if c.maxSize ≤ c.cache.lruList.length then
        (c.cache.lruList.getLast?.map Node.entry, { c with cache := emplaceFront c.cache.evict sql stmt })
      else (none, { c with cache := emplaceFront c.cache sql stmt })

def erase (c : StmtCache S) (sql : Bytes) : Option S × StmtCache S :=
  match c.cache.find sql with
  | none => (none, c)
  | some n => (some n.entry, { c with cache := c.cache.erase sql })

def clear (c : StmtCache S) : List S × StmtCache S :=
  (c.cache.lruList.map Node.entry, { c with cache := { c.cache with lruList := [], index := [] } })

/-- A call, with the statements that it hands out. -/
def step (c : StmtCache S) : Op Bytes S → List S × StmtCache S
  | .find sql => ((c.find sql).1.toList, (c.find sql).2)
  | .insert sql stmt => ((c.insert sql stmt).1.toList, (c.insert sql stmt).2)
  | .erase sql => ((c.erase sql).1.toList, (c.erase sql).2)
  | .clear => c.clear

def run (c : StmtCache S) : List (Op Bytes S) → List (List S) × StmtCache S
  | [] => ([], c)
  | op :: ops => ((c.step op).1 :: ((c.step op).2.run ops).1, ((c.step op).2.run ops).2)

end StmtCache

/-- `PgStmtCache`, which keeps the names of statements. -/
structure PgStmtCache (N : Type) where
  maxSize : Nat
  cache : Cache Bytes N := {}

namespace PgStmtCache
variable {N : Type}

def find (c : PgStmtCache N) (sql : Bytes) : Option N × PgStmtCache N :=
  match c.cache.find sql with
  | none => (none, c)
  | some n => (some n.entry, { c with cache := c.cache.promote n })

def insert (c : PgStmtCache N) (sql : Bytes) (stmtName : N) : PgStmtCache N :=
  match c.cache.find sql with
  | some n => { c with cache := (c.cache.update n.addr fun _ => stmtName).promote { n with entry := stmtName } }
  | none =>
    if c.maxSize = 0 then c
    else if c.maxSize ≤ c.cache.lruList.length then { c with cache := c.cache.evict.insert sql stmtName }
    else { c with cache := c.cache.insert sql stmtName }

def erase (c : PgStmtCache N) (sql : Bytes) : PgStmtCache N := { c with cache := c.cache.erase sql }

def clear (c : PgStmtCache N) : PgStmtCache N := { c with cache := { c.cache with lruList := [], index := [] } }

/-- Only `find` hands out something. -/
def step (c : PgStmtCache N) : Op Bytes N → List N × PgStmtCache N
  | .find sql => ((c.find sql).1.toList, (c.find sql).2)
  | .insert sql stmtName => ([], c.insert sql stmtName)
  | .erase sql => ([], c.erase sql)
  | .clear => ([], c.clear)

def run (c : PgStmtCache N) : List (Op Bytes N) → List (List N) × PgStmtCache N
  | [] => ([], c)
  | op :: ops => ((c.step op).1 :: ((c.step op).2.run ops).1, ((c.step op).2.run ops).2)

end PgStmtCache

section Refinement
variable {E : Type} {cache : Cache Bytes E} {limit : Nat}

theorem rep_cleared (limit : Nat) (cache : Cache Bytes E) :
    ({ cache with lruList := [], index := [] } : Cache Bytes E).Rep limit where
  addrs := List.nodup_nil
  below _ hn := nomatch hn
  keys := List.nodup_nil
  listed _ hn := nomatch hn
  indexed _ he := nomatch he
  listBound := Nat.zero_le _
  indexBound := Nat.zero_le _

theorem absent_of_find (h : cache.Rep limit) (hf : cache.find sql = none) : cache.address sql = none := by
  cases ha : cache.address sql with
  | none => rfl
  | some addr =>
    obtain ⟨n, hn, -⟩ := h.find ha
    rw [hf] at hn
    cases hn

theorem recency_length (cache : Cache Bytes E) : cache.recency.length = cache.lruList.length := List.length_map ..

theorem index_length (h : cache.Rep limit) : cache.index.length = cache.lruList.length := by
  apply Nat.le_antisymm
  · have hsub : cache.index.map Prod.fst ⊆ cache.lruList.map Node.key := by
      intro key hkey
      obtain ⟨e, he, rfl⟩ := List.mem_map.1 hkey
      obtain ⟨n, hn, hk, -⟩ := h.indexed e he
      exact List.mem_map.2 ⟨n, hn, hk⟩
    simpa using (List.subperm_of_subset h.keys hsub).length_le
  · exact h.length_le

theorem emplaceFront_eq (ha : cache.address sql = none) (stmt : E) :
    StmtCache.emplaceFront cache sql stmt = cache.insert sql stmt := by
  have hother : cache.index.filter (fun e => e.1 != sql) = cache.index := by
    apply List.filter_eq_self.2
    intro e he
    apply bne_iff_ne.2
    intro hk
    have hsome : (cache.address sql).isSome := Cache.lookup_isSome.2 ⟨e.2, hk ▸ he⟩
    rw [ha] at hsome
    cases hsome
  rw [StmtCache.emplaceFront, Cache.insert, ha, hother]
  rfl

theorem address_evict (ha : cache.address sql = none) : cache.evict.address sql = none := by
  cases hs : cache.evict.address sql with
  | none => rfl
  | some addr =>
    have hsome : (cache.address sql).isSome :=
      Cache.lookup_isSome.2 ⟨addr, Cache.evict_sublist.2.subset (Cache.mem_of_lookup hs)⟩
    rw [ha] at hsome
    cases hsome

/-- A new key, after the last one went where there is no room. -/
def withNew (limit : Nat) (cache : Cache Bytes E) (sql : Bytes) (entry : E) : Cache Bytes E :=
  if limit ≤ cache.lruList.length then cache.evict.insert sql entry else cache.insert sql entry

theorem rep_withNew (h : cache.Rep limit) (hpos : 0 < limit) (ha : cache.address sql = none) (entry : E) :
    (withNew limit cache sql entry).Rep limit := by
  have hroom := h.makeRoom hpos
  rw [Cache.makeRoom, index_length h] at hroom
  rw [withNew]
  by_cases hfull : limit ≤ cache.lruList.length
  · rw [if_pos hfull] at hroom ⊢
    exact hroom.1.insert hroom.2.1 hroom.2.2 entry (address_evict ha)
  · rw [if_neg hfull] at hroom ⊢
    exact hroom.1.insert hroom.2.1 hroom.2.2 entry ha

theorem recency_withNew (limit : Nat) (cache : Cache Bytes E) (sql : Bytes) (entry : E) :
    (withNew limit cache sql entry).recency = (sql, entry) ::
      if limit ≤ cache.recency.length then cache.recency.dropLast else cache.recency := by
  rw [withNew, recency_length]
  split
  · rw [Cache.recency_insert, Cache.recency_evict]
  · rw [Cache.recency_insert]

/-- What a call of one of the caches comes to. -/
structure Refines (limit : Nat) (cache : Cache Bytes E) (op : Op Bytes E) (out : List E) (cache' : Cache Bytes E) :
    Prop where
  out : out = (Recency.step limit cache.recency op).1
  recency : cache'.recency = (Recency.step limit cache.recency op).2
  rep : cache'.Rep limit

theorem refines_find (h : cache.Rep limit) (sql : Bytes) :
    Refines limit cache (.find sql) ((cache.find sql).map Node.entry).toList
      (match cache.find sql with
        | none => cache
        | some n => cache.promote n) := by
  have hl := h.lookup sql
  cases hf : cache.find sql with
  | none =>
    rw [hf] at hl
    constructor
    · rw [Recency.step, Recency.find, hl]
      rfl
    · rw [Recency.step, Recency.find, hl]
      rfl
    · exact h
  | some n =>
    rw [hf] at hl
    have hn := (Cache.find_eq_some hf).2
    have hk := h.coherent.key_of_find hf
    constructor
    · rw [Recency.step, Recency.find, hl]
      rfl
    · rw [Recency.step, Recency.find, hl]
      dsimp only [Option.map_some]
      rw [h.recency_promote hn, hk]
    · exact h.promote hn

theorem refines_erase (h : cache.Rep limit) (sql : Bytes) :
    Refines limit cache (.erase sql) ((cache.find sql).map Node.entry).toList (cache.erase sql) := by
  constructor
  · rw [Recency.step, h.lookup]
  · exact h.recency_erase sql
  · exact h.erase sql

theorem refines_clear (limit : Nat) (cache : Cache Bytes E) : Refines limit cache .clear (cache.lruList.map Node.entry)
    { cache with lruList := [], index := [] } := by
  constructor
  · rw [Recency.step, Cache.recency, List.map_map]
    rfl
  · rfl
  · exact rep_cleared limit cache

theorem refines_replace (h : cache.Rep limit) (hpos : limit ≠ 0) (hf : cache.find sql = some n) (entry : E) :
    Refines limit cache (.insert sql entry) []
      ((cache.update n.addr fun _ => entry).promote { n with entry := entry }) := by
  have hl := h.lookup sql
  rw [hf] at hl
  have hn := (Cache.find_eq_some hf).2
  have hk := h.coherent.key_of_find hf
  constructor
  · rw [Recency.step, Recency.insert, if_neg hpos, hl]
    rfl
  · rw [Recency.step, Recency.insert, if_neg hpos, hl]
    dsimp only [Option.map_some]
    rw [h.recency_replace hn, hk]
  · apply (h.update n.addr fun _ => entry).promote
    apply List.mem_map.2
    exact ⟨n, hn, if_pos rfl⟩

theorem refines_withNew (h : cache.Rep limit) (hpos : limit ≠ 0) (hf : cache.find sql = none) (entry : E) :
    Refines limit cache (.insert sql entry)
      (if limit ≤ cache.lruList.length then (cache.lruList.getLast?.map Node.entry).toList else [])
      (withNew limit cache sql entry) := by
  have hl := h.lookup sql
  rw [hf] at hl
  have hlast : cache.recency.getLast?.toList.map Prod.snd = (cache.lruList.getLast?.map Node.entry).toList := by
    rw [Cache.recency, List.getLast?_map]
    cases cache.lruList.getLast? with
    | none => rfl
    | some n => rfl
  constructor
  · rw [Recency.step, Recency.insert, if_neg hpos, hl, recency_length]
    dsimp only [Option.map_none]
    split
    · exact hlast.symm
    · rfl
  · rw [recency_withNew, Recency.step, Recency.insert, if_neg hpos, hl]
    dsimp only [Option.map_none]
    split
    · rfl
    · rfl
  · exact rep_withNew h (Nat.pos_of_ne_zero hpos) (absent_of_find h hf) entry

theorem find_of_disabled (h : cache.Rep 0) (sql : Bytes) : cache.find sql = none := by
  have hnil := List.eq_nil_of_length_eq_zero (Nat.le_zero.1 h.listBound)
  cases hf : cache.find sql with
  | none => rfl
  | some n =>
    have hn := (Cache.find_eq_some hf).2
    rw [hnil] at hn
    cases hn

theorem refines_refused (h : cache.Rep limit) (h0 : limit = 0) (sql : Bytes) (entry : E) :
    Refines limit cache (.insert sql entry) [entry] cache := by
  constructor
  · rw [Recency.step, Recency.insert, if_pos h0]
  · rw [Recency.step, Recency.insert, if_pos h0]
  · exact h

end Refinement

theorem StmtCache.step_refines (c : StmtCache S) (h : c.cache.Rep c.maxSize) (op : Op Bytes S) :
    (c.step op).2.maxSize = c.maxSize ∧ Refines c.maxSize c.cache op (c.step op).1 (c.step op).2.cache := by
  cases op with
  | find sql =>
    have hr := refines_find h sql
    rw [step, find]
    by_cases h0 : c.maxSize = 0
    · rw [find_of_disabled (h0 ▸ h) sql] at hr
      rw [if_pos h0]
      exact ⟨rfl, hr⟩
    · rw [if_neg h0]
      cases hf : c.cache.find sql with
      | none | some n =>
        rw [hf] at hr
        exact ⟨rfl, hr⟩
  | insert sql stmt =>
    rw [step, insert]
    by_cases h0 : c.maxSize = 0
    · rw [if_pos h0]
      exact ⟨rfl, refines_refused h h0 sql stmt⟩
    · rw [if_neg h0]
      cases hf : c.cache.find sql with
      | some n => exact ⟨rfl, refines_replace h h0 hf stmt⟩
      | none =>
        have hr := refines_withNew h h0 hf stmt
        have ha := absent_of_find h hf
        rw [withNew] at hr
        dsimp only
        by_cases hfull : c.maxSize ≤ c.cache.lruList.length
        · rw [if_pos hfull, if_pos hfull] at hr
          rw [if_pos hfull, emplaceFront_eq (address_evict ha)]
          exact ⟨rfl, hr⟩
        · rw [if_neg hfull, if_neg hfull] at hr
          rw [if_neg hfull, emplaceFront_eq ha]
          exact ⟨rfl, hr⟩
  | erase sql =>
    have hr := refines_erase h sql
    rw [step, erase]
    cases hf : c.cache.find sql with
    | none =>
      rw [Cache.erase, absent_of_find h hf, hf] at hr
      exact ⟨rfl, hr⟩
    | some n =>
      rw [hf] at hr
      exact ⟨rfl, hr⟩
  | clear => exact ⟨rfl, refines_clear c.maxSize c.cache⟩

namespace StmtCache
variable {S : Type} {c : StmtCache S}

def statements (c : StmtCache S) : List S := c.cache.lruList.map Node.entry

theorem find_hit (h : c.cache.Rep c.maxSize) (hf : c.find sql = (some stmt, c')) :
    c'.maxSize = c.maxSize ∧ c'.cache.Rep c.maxSize ∧ stmt ∈ c.statements ∧ c'.statements.Perm c.statements := by
  rw [find] at hf
  split at hf
  · cases hf
  · cases hn : c.cache.find sql with
    | none =>
      rw [hn] at hf
      cases hf
    | some n =>
      rw [hn] at hf
      cases hf
      have hmem := (Cache.find_eq_some hn).2
      exact ⟨rfl, h.promote hmem, List.mem_map_of_mem hmem, (h.promote_perm hmem).map _⟩

theorem find_miss (hpos : c.maxSize ≠ 0) (hf : c.find sql = (none, c')) : c' = c ∧ c.cache.find sql = none := by
  rw [find, if_neg hpos] at hf
  cases hn : c.cache.find sql with
  | none =>
    rw [hn] at hf
    cases hf
    exact ⟨rfl, rfl⟩
  | some n =>
    rw [hn] at hf
    cases hf

theorem insert_new (hpos : c.maxSize ≠ 0) (hf : c.cache.find sql = none) (stmt : S) :
    (c.insert sql stmt).1 = none ∧ (c.insert sql stmt).2.statements = stmt :: c.statements ∨
      ∃ victim rest, (c.insert sql stmt).1 = some victim ∧ c.statements = rest ++ [victim] ∧
        (c.insert sql stmt).2.statements = stmt :: rest := by
  rw [insert, if_neg hpos, hf]
  dsimp only
  by_cases hfull : c.maxSize ≤ c.cache.lruList.length
  · apply Or.inr
    rw [if_pos hfull]
    have hne : c.cache.lruList ≠ [] :=
      List.ne_nil_of_length_pos (Nat.lt_of_lt_of_le (Nat.pos_of_ne_zero hpos) hfull)
    have hlast := List.getLast?_eq_getLast_of_ne_nil hne
    refine ⟨(c.cache.lruList.getLast hne).entry, c.cache.lruList.dropLast.map Node.entry, ?_, ?_, ?_⟩
    · rw [hlast]
      rfl
    · rw [statements]
      nth_rewrite 1 [← List.dropLast_append_getLast hne]
      rw [List.map_append]
      rfl
    · rw [statements, emplaceFront, Cache.evict, hlast]
      rfl
  · rw [if_neg hfull]
    exact .inl ⟨rfl, rfl⟩

end StmtCache

/-- Of what a call gives up the other class hands out what was looked for. -/
def visible : Op Bytes E → List E → List E
  | .find _, out => out
  | _, _ => []

theorem PgStmtCache.step_refines (c : PgStmtCache N) (h : c.cache.Rep c.maxSize) (op : Op Bytes N) :
    (c.step op).2.maxSize = c.maxSize ∧
      ∃ out, (c.step op).1 = visible op out ∧ Refines c.maxSize c.cache op out (c.step op).2.cache := by
  cases op with
  | find sql =>
    have hr := refines_find h sql
    rw [step, find]
    cases hf : c.cache.find sql with
    | none | some n =>
      rw [hf] at hr
      exact ⟨rfl, _, rfl, hr⟩
  | insert sql stmtName =>
    rw [step, insert]
    cases hf : c.cache.find sql with
    | some n =>
      have h0 : c.maxSize ≠ 0 := by
        intro h0
        rw [find_of_disabled (h0 ▸ h) sql] at hf
        cases hf
      exact ⟨rfl, _, rfl, refines_replace h h0 hf stmtName⟩
    | none =>
      dsimp only
      by_cases h0 : c.maxSize = 0
      · rw [if_pos h0]
        exact ⟨rfl, _, rfl, refines_refused h h0 sql stmtName⟩
      · have hr := refines_withNew h h0 hf stmtName
        rw [withNew] at hr
        rw [if_neg h0]
        by_cases hfull : c.maxSize ≤ c.cache.lruList.length
        · rw [if_pos hfull, if_pos hfull] at hr
          rw [if_pos hfull]
          exact ⟨rfl, _, rfl, hr⟩
        · rw [if_neg hfull, if_neg hfull] at hr
          rw [if_neg hfull]
          exact ⟨rfl, _, rfl, hr⟩
  | erase sql => exact ⟨rfl, _, rfl, refines_erase h sql⟩
  | clear => exact ⟨rfl, _, rfl, refines_clear c.maxSize c.cache⟩

section Runs
variable {E : Type} {cache cache' : Cache Bytes E} {u : Uses Bytes E} {limit : Nat}

/-- A cache that has the keys in the order of their uses. -/
structure Kept (limit : Nat) (cache : Cache Bytes E) (u : Uses Bytes E) : Prop where
  rep : cache.Rep limit
  tracks : Recency.Tracks cache.recency u

theorem kept_start (limit : Nat) : Kept limit ({} : Cache Bytes E) {} := ⟨Cache.rep_empty limit, Recency.Tracks.start⟩

theorem Kept.step (h : Kept limit cache u) (hr : Refines limit cache op out cache') :
    ∃ u', u.Step limit op out u' ∧ Kept limit cache' u' := by
  have hlen : cache.recency.length ≤ limit := by
    rw [recency_length]
    exact h.rep.listBound
  obtain ⟨u', hs, ht⟩ := h.tracks.step hlen op
  rw [← hr.out] at hs
  rw [← hr.recency] at ht
  exact ⟨u', hs, hr.rep, ht⟩

theorem StmtCache.run_kept (ops : List (Op Bytes S)) (c : StmtCache S) (u : Uses Bytes S)
    (h : Kept c.maxSize c.cache u) : ∃ u', u.Run c.maxSize ops (c.run ops).1 u' ∧
      Kept c.maxSize (c.run ops).2.cache u' := by
  induction ops generalizing c u with
  | nil => exact ⟨u, .nil, h⟩
  | cons op ops ih =>
    obtain ⟨hsize, hr⟩ := c.step_refines h.rep op
    obtain ⟨v, hs, hv⟩ := h.step hr
    rw [← hsize] at hv
    obtain ⟨w, hruns, hw⟩ := ih (c.step op).2 v hv
    rw [hsize] at hruns hw
    exact ⟨w, .cons hs hruns, hw⟩

theorem PgStmtCache.run_kept (ops : List (Op Bytes N)) (c : PgStmtCache N) (u : Uses Bytes N)
    (h : Kept c.maxSize c.cache u) : ∃ outs u', (c.run ops).1 = List.zipWith visible ops outs ∧
      u.Run c.maxSize ops outs u' ∧ Kept c.maxSize (c.run ops).2.cache u' := by
  induction ops generalizing c u with
  | nil => exact ⟨[], u, rfl, .nil, h⟩
  | cons op ops ih =>
    obtain ⟨hsize, out, hout, hr⟩ := c.step_refines h.rep op
    obtain ⟨v, hs, hv⟩ := h.step hr
    rw [← hsize] at hv
    obtain ⟨outs, w, houts, hruns, hw⟩ := ih (c.step op).2 v hv
    rw [hsize] at hruns hw
    refine ⟨out :: outs, w, ?_, .cons hs hruns, hw⟩
    rw [run, hout, houts, List.zipWith_cons_cons]

end Runs

section Agreement
variable {E F : Type} {cache : Cache Bytes E} {other : Cache Bytes F}

/-- The keys, the one used last in front. -/
def sqls (cache : Cache Bytes E) : List Bytes := cache.recency.map Prod.fst

theorem keys_step (limit : Nat) (l : Recency Bytes E) (op : Op Bytes E) :
    (Recency.step limit l op).2.map Prod.fst =
      (Recency.step limit (l.map fun p => (p.1, ())) (op.map fun _ => ())).2.map Prod.fst := by
  rw [Recency.step_map limit (fun _ => ()) l op, List.map_map]
  rfl

theorem recency_units (cache : Cache Bytes E) :
    cache.recency.map (fun p => (p.1, ())) = (sqls cache).map fun sql => (sql, ()) := by
  rw [sqls, List.map_map]
  rfl

theorem sqls_step (hr : Refines limit cache op out cache') (ho : Refines limit other op' out' other')
    (hop : op.map (fun _ => ()) = op'.map fun _ => ()) (h : sqls cache = sqls other) :
    sqls cache' = sqls other' := by
  rw [sqls, sqls, hr.recency, ho.recency, keys_step limit cache.recency, keys_step limit other.recency,
    recency_units cache, recency_units other, h, hop]

theorem sqls_run (ops : List (Op Bytes (S × N))) (c : StmtCache S) (d : PgStmtCache N)
    (hc : c.cache.Rep c.maxSize) (hd : d.cache.Rep d.maxSize) (hsize : c.maxSize = d.maxSize)
    (h : sqls c.cache = sqls d.cache) :
    sqls (c.run (ops.map (Op.map Prod.fst))).2.cache = sqls (d.run (ops.map (Op.map Prod.snd))).2.cache := by
  induction ops generalizing c d with
  | nil => exact h
  | cons op ops ih =>
    obtain ⟨hc', hr⟩ := c.step_refines hc (op.map Prod.fst)
    obtain ⟨hd', out, -, ho⟩ := d.step_refines hd (op.map Prod.snd)
    have hop : (op.map Prod.fst).map (fun _ => ()) = (op.map Prod.snd).map fun _ => () := by
      cases op with
      | find sql | insert sql pair | erase sql | clear => rfl
    rw [← hsize] at ho
    apply ih
    · rw [hc']
      exact hr.rep
    · rw [hd', ← hsize]
      exact ho.rep
    · rw [hc', hd', hsize]
    · exact sqls_step hr ho hop h

end Agreement

/-- Both caches are maps of at most `maxSize` keys that give up the one used least recently; list and
index stay in bijection, and both classes keep the same keys. -/
theorem stmtCaches_lru (maxSize : Nat) (ops : List (Op Bytes (S × N))) :
    let mysql := (StmtCache.mk maxSize {}).run (ops.map (Op.map Prod.fst))
    let pgsql := (PgStmtCache.mk maxSize {}).run (ops.map (Op.map Prod.snd))
    (∃ u, Uses.Run maxSize {} (ops.map (Op.map Prod.fst)) mysql.1 u ∧ Kept maxSize mysql.2.cache u) ∧
      (∃ outs u, pgsql.1 = List.zipWith visible (ops.map (Op.map Prod.snd)) outs ∧
        Uses.Run maxSize {} (ops.map (Op.map Prod.snd)) outs u ∧ Kept maxSize pgsql.2.cache u) ∧
      sqls mysql.2.cache = sqls pgsql.2.cache :=
  ⟨StmtCache.run_kept _ ⟨maxSize, {}⟩ {} (kept_start maxSize),
    PgStmtCache.run_kept _ ⟨maxSize, {}⟩ {} (kept_start maxSize),
    sqls_run ops ⟨maxSize, {}⟩ ⟨maxSize, {}⟩ (Cache.rep_empty _) (Cache.rep_empty _) rfl rfl⟩

end Hical.Db
