import Hical.Lib.Runs
import Hical.Lib.TokenBucket
import Hical.Members
import Mathlib.Data.Rat.Cast.Order

namespace Hical.RateLimiter

/-- Rate and burst as exact numbers. -/
structure RateLimitConfig where
  rate : ℚ := 10
  burst : ℚ := 20

structure RateLimiterOptions where
  config : RateLimitConfig := {}
  maxEntries : Nat := 100000
  gcIntervalMs : Int := 60000

structure RateLimitBucket where
  tokens : ℚ
  lastAccessNs : Int

/-- The map and what `gc` keeps of its last run. -/
structure BucketStore where
  buckets : List (Bytes × RateLimitBucket)
  lastGc : Int
  distinct : Distinct buckets

/-- Five minutes. -/
def kIdleThreshold : Int := 300000000000

def seconds (ns : Int) : ℚ := ns / 1000000000

namespace BucketStore

def empty (lastGc : Int) : BucketStore := ⟨[], lastGc, List.nodup_nil⟩

def find (store : BucketStore) (key : Bytes) : Option RateLimitBucket := findMember key store.buckets

/-- An entry of the map replaced or added. -/
def put (store : BucketStore) (key : Bytes) (bucket : RateLimitBucket) : BucketStore :=
  ⟨setMember key bucket store.buckets, store.lastGc, distinct_setMember store.distinct key bucket⟩

def size (store : BucketStore) : Nat := store.buckets.length

end BucketStore

section Check
variable (opts : RateLimiterOptions)

/-- What `check` does to a bucket, under either of the two locks of the map. -/
def consume (bucket : RateLimitBucket) (nowNs : Int) : RateLimitBucket × Bool :=
  let elapsed := seconds (nowNs - bucket.lastAccessNs)
  let tokens := min (bucket.tokens + elapsed * opts.config.rate) opts.config.burst
  if 1 ≤ tokens then ({ tokens := tokens - 1, lastAccessNs := nowNs }, true)
  else ({ tokens, lastAccessNs := nowNs }, false)

/-- A key and the reading of the clock that `check` was given. -/
structure Call where
  key : Bytes
  now : Int
  deriving DecidableEq

/-- What happens under the shared lock; `none` when the key has no bucket. -/
def lookupSection (store : BucketStore) (call : Call) : Option (BucketStore × Bool) :=
  (store.find call.key).map fun bucket =>
    let (bucket, allowed) := consume opts bucket call.now
    (store.put call.key bucket, allowed)

/-- What happens under the unique lock. -/
def createSection (store : BucketStore) (call : Call) : BucketStore × Bool :=
  match store.find call.key with
  | some bucket =>
    let (bucket, allowed) := consume opts bucket call.now
    (store.put call.key bucket, allowed)
  | none =>
    if opts.maxEntries ≤ store.size then (store, false)
    else (store.put call.key { tokens := max (opts.config.burst - 1) 0, lastAccessNs := call.now }, true)

/-- Removes what was idle for too long, at most once in an interval. -/
def gc (store : BucketStore) (now : Int) : BucketStore :=
  if (now - store.lastGc).tdiv 1000000 < opts.gcIntervalMs then store
  else
    { buckets := store.buckets.filter fun e => !decide (kIdleThreshold < now - e.2.lastAccessNs)
      lastGc := now
      distinct := (List.filter_sublist.map _).nodup store.distinct }

end Check

/-- The limiter between two turns of its callers. -/
structure Limiter where
  store : BucketStore
  /-- The calls that found no bucket and have yet to take the unique lock. -/
  waiting : List Call
  /-- The answers in their order. -/
  log : List (Call × Bool)
  /-- For each key the bucket that was collected last. -/
  collected : Bytes → Option RateLimitBucket

/-- One caller holds the lock of the map. -/
inductive Turn where
  | gc (now : Int)
  | lookup (call : Call)
  | create (call : Call)

def Turn.now : Turn → Int
  | .gc now => now
  | .lookup call | .create call => call.now

def start (startedAt : Int) : Limiter := ⟨.empty startedAt, [], [], fun _ => none⟩

section Turns
variable (opts : RateLimiterOptions)

/-- The callers take turns in any order; what one of them read from the clock may be old by then. -/
def step (s : Limiter) : Turn → Limiter
  | .gc now =>
    { s with
      store := gc opts s.store now
      collected := fun key =>
        match s.store.find key, (gc opts s.store now).find key with
        | some bucket, none => some bucket
        | _, _ => s.collected key }
  | .lookup call =>
    match lookupSection opts s.store call with
    | some (store, allowed) => { s with store, log := s.log ++ [(call, allowed)] }
    | none => { s with waiting := call :: s.waiting }
  | .create call =>
    if call ∈ s.waiting then
      { s with
        store := (createSection opts s.store call).1
        waiting := s.waiting.erase call
        log := s.log ++ [(call, (createSection opts s.store call).2)] }
    else s

def run (startedAt : Int) (turns : List Turn) : Limiter := turns.foldl (step opts) (start startedAt)

end Turns

section Lookups
variable {store : BucketStore} {opts : RateLimiterOptions}

@[simp] theorem find_put (store : BucketStore) (key key' : Bytes) (bucket : RateLimitBucket) :
    (store.put key bucket).find key' = if key = key' then some bucket else store.find key' :=
  findMember_set key key' bucket store.buckets

theorem size_put_present (h : store.find key = some old) (bucket : RateLimitBucket) :
    (store.put key bucket).size = store.size := by
  have hnames := congrArg List.length (names_setMember key bucket store.buckets)
  have hmem : key ∈ store.buckets.map (·.1) := by
    by_contra hno
    rw [BucketStore.find, findMember_none_iff.2 hno] at h
    cases h
  rwa [if_pos hmem, List.length_map, List.length_map] at hnames

theorem size_put_absent (h : store.find key = none) (bucket : RateLimitBucket) :
    (store.put key bucket).size = store.size + 1 := by
  have hnames := congrArg List.length (names_setMember key bucket store.buckets)
  rwa [if_neg (findMember_none_iff.1 h), List.length_append, List.length_map, List.length_map, List.length_singleton] at hnames

theorem find_gc (opts : RateLimiterOptions) (store : BucketStore) (now : Int) (key : Bytes) :
    (gc opts store now).find key = store.find key ∨
      ∃ bucket, store.find key = some bucket ∧ (gc opts store now).find key = none ∧
        bucket.lastAccessNs + kIdleThreshold < now := by
  rw [gc]
  split
  · exact .inl rfl
  · cases hfind : store.find key with
    | none =>
      left
      rw [BucketStore.find, findMember_none_iff] at hfind ⊢
      intro h
      exact hfind ((List.filter_sublist.map _).subset h)
    | some bucket =>
      obtain ⟨e, he, rfl⟩ := Option.map_eq_some_iff.1 hfind
      have hkey : e.1 = key := beq_iff_eq.1 (List.find?_some (p := fun e : Bytes × RateLimitBucket => e.1 == key) he)
      have hmem := List.mem_of_find?_eq_some he
      subst hkey
      by_cases hold : kIdleThreshold < now - e.2.lastAccessNs
      · right
        refine ⟨e.2, rfl, ?_, by omega⟩
        rw [BucketStore.find, findMember_none_iff]
        intro h
        obtain ⟨e', he', hsame⟩ := List.mem_map.1 h
        obtain ⟨hmem', hkeep⟩ := List.mem_filter.1 he'
        have heq : e' = e := by
          have hfirst := @findMember_mem _ e.1 e'.2 _ store.distinct (hsame ▸ hmem')
          have hsecond := @findMember_mem _ e.1 e.2 _ store.distinct hmem
          rw [hfirst] at hsecond
          injection hsecond with hvalue
          exact Prod.ext hsame hvalue
        rw [heq, decide_eq_true hold] at hkeep
        cases hkeep
      · left
        apply findMember_mem ((List.filter_sublist.map _).nodup store.distinct)
        exact List.mem_filter.2 ⟨hmem, by rw [decide_eq_false hold]; rfl⟩

end Lookups

end Hical.RateLimiter

namespace Hical.RateLimiter
open TokenBucket

section Credits
variable (opts : RateLimiterOptions)

def creditOf (bucket : RateLimitBucket) : WithTop ℚ :=
  ((credit opts.config.rate bucket.tokens (seconds bucket.lastAccessNs) : ℚ) : WithTop ℚ)

/-- That of a key's bucket, or of the one that was collected; a new key has no limit yet. -/
def creditFor (s : Limiter) (key : Bytes) : WithTop ℚ :=
  match (s.store.find key).or (s.collected key) with
  | some bucket => creditOf opts bucket
  | none => ⊤

def admissions (key : Bytes) (log : List (Call × Bool)) : List (Option ℚ) :=
  log.map fun e => if e.1.key = key ∧ e.2 = true then some (seconds e.1.now) else none

/-- The calls of a key that were allowed, by the readings of the clock from `a` to `b`. -/
def allowedIn (key : Bytes) (a b : Int) (log : List (Call × Bool)) : Nat :=
  log.countP fun e => decide (e.1.key = key ∧ e.2 = true) && decide (a ≤ e.1.now ∧ e.1.now ≤ b)

/-- Where a bucket is created, what the one that was collected would hold by now, were it still there, is
not less than a new one holds. -/
def Refilled (s : Limiter) : Turn → Prop
  | .create call => call ∈ s.waiting → s.store.find call.key = none → s.store.size < opts.maxEntries →
      ∀ old, s.collected call.key = some old →
      opts.config.burst ≤ old.tokens + seconds (call.now - old.lastAccessNs) * opts.config.rate
  | _ => True

end Credits

section Charging
variable {opts : RateLimiterOptions} {s : Limiter} {call : Call}

theorem seconds_sub (a b : Int) : seconds (a - b) = seconds a - seconds b := by
  rw [seconds, seconds, seconds, Int.cast_sub, sub_div]

theorem seconds_le_iff (a b : Int) : seconds a ≤ seconds b ↔ a ≤ b := by
  rw [seconds, seconds, div_le_div_iff_of_pos_right (by norm_num), Int.cast_le]

theorem allowedIn_eq (key : Bytes) (a b : Int) (log : List (Call × Bool)) :
    allowedIn key a b log = admitted (seconds a) (seconds b) (admissions key log) := by
  rw [allowedIn, admitted, admissions, List.countP_map]
  apply List.countP_congr
  intro e _
  simp only [Function.comp_apply]
  by_cases h : e.1.key = key ∧ e.2 = true
  · rw [if_pos h, decide_eq_true h, Option.any_some, Bool.true_and, decide_eq_true_iff, decide_eq_true_iff,
      seconds_le_iff, seconds_le_iff]
  · rw [if_neg h, decide_eq_false h, Option.any_none, Bool.false_and]

theorem consume_charge (opts : RateLimiterOptions) (bucket : RateLimitBucket) (now : Int) :
    Charge opts.config.rate opts.config.burst (creditOf opts bucket)
      (if (consume opts bucket now).2 = true then some (seconds now) else none)
      (creditOf opts (consume opts bucket now).1) := by
  rw [consume, seconds_sub]
  split
  · next h => exact charge_admit h
  · exact charge_refuse ..

theorem creditFor_find (h : s.store.find key = some bucket) : creditFor opts s key = creditOf opts bucket := by
  rw [creditFor, h, Option.some_or]

theorem creditFor_put (store : BucketStore) (bucket : RateLimitBucket) (s : Limiter) (waiting : List Call)
    (log : List (Call × Bool)) (hcollected : s.store = store) :
    creditFor opts { s with store := store.put call.key bucket, waiting := waiting, log := log } key =
      if call.key = key then creditOf opts bucket else creditFor opts s key := by
  by_cases hkey : call.key = key
  · rw [creditFor, find_put, if_pos hkey, if_pos hkey, Option.some_or]
  · rw [creditFor, find_put, if_neg hkey, if_neg hkey, creditFor, hcollected]

theorem charges_answer {u : WithTop ℚ} (key : Bytes) (h : Charges opts.config.rate opts.config.burst ⊤ (admissions key s.log) u)
    (hc : Charge opts.config.rate opts.config.burst u (if call.key = key ∧ allowed = true then some (seconds call.now) else none) v) :
    Charges opts.config.rate opts.config.burst ⊤ (admissions key (s.log ++ [(call, allowed)])) v := by
  rw [admissions, List.map_append]
  exact .snoc h hc

theorem charge_consume (key : Bytes) (hfind : s.store.find call.key = some bucket) (waiting : List Call)
    (log : List (Call × Bool)) :
    Charge opts.config.rate opts.config.burst (creditFor opts s key)
      (if call.key = key ∧ (consume opts bucket call.now).2 = true then some (seconds call.now) else none)
      (creditFor opts { s with
        store := s.store.put call.key (consume opts bucket call.now).1, waiting := waiting, log := log } key) := by
  rw [creditFor_put s.store (consume opts bucket call.now).1 s waiting log rfl]
  by_cases hkey : call.key = key
  · subst hkey
    rw [if_pos rfl, creditFor_find hfind]
    simp only [true_and]
    exact consume_charge opts bucket call.now
  · rw [if_neg hkey, if_neg fun h => hkey h.1]
    exact .idle (le_refl _)

theorem charge_new (key : Bytes) (hburst : 1 ≤ opts.config.burst) (hfind : s.store.find call.key = none)
    (hrefilled : ∀ old, s.collected call.key = some old →
      opts.config.burst ≤ old.tokens + seconds (call.now - old.lastAccessNs) * opts.config.rate)
    (waiting : List Call) (log : List (Call × Bool)) :
    Charge opts.config.rate opts.config.burst (creditFor opts s key)
      (if call.key = key ∧ true = true then some (seconds call.now) else none)
      (creditFor opts { s with
        store := s.store.put call.key { tokens := max (opts.config.burst - 1) 0, lastAccessNs := call.now }
        waiting := waiting, log := log } key) := by
  rw [creditFor_put s.store _ s waiting log rfl]
  by_cases hkey : call.key = key
  · subst hkey
    have hfull : max (opts.config.burst - 1) 0 = opts.config.burst - 1 := max_eq_left (by linarith)
    rw [if_pos rfl, if_pos ⟨rfl, rfl⟩, creditOf, hfull]
    apply charge_create hburst
    rw [creditFor, hfind, Option.none_or]
    cases hold : s.collected call.key with
    | none => exact le_top
    | some old =>
      have hle := hrefilled old hold
      rw [seconds_sub] at hle
      apply WithTop.coe_le_coe.2
      rw [credit]
      linarith
  · rw [if_neg hkey, if_neg fun h => hkey h.1]
    exact .idle (le_refl _)

theorem creditFor_gc (s : Limiter) (now : Int) (key : Bytes) :
    creditFor opts (step opts s (.gc now)) key = creditFor opts s key := by
  rw [creditFor, creditFor, step]
  rcases find_gc opts s.store now key with h | ⟨bucket, hfind, hgone, -⟩
  · cases hfind : s.store.find key with
    | none => simp only [h, hfind, Option.none_or]
    | some bucket => simp only [h, hfind, Option.some_or]
  · simp only [hfind, hgone, Option.none_or, Option.some_or]

theorem step_charges (hburst : 1 ≤ opts.config.burst) (key : Bytes) (turn : Turn) (hrefilled : Refilled opts s turn)
    (h : Charges opts.config.rate opts.config.burst ⊤ (admissions key s.log) (creditFor opts s key)) :
    Charges opts.config.rate opts.config.burst ⊤ (admissions key (step opts s turn).log)
      (creditFor opts (step opts s turn) key) := by
  cases turn with
  | gc now =>
    rw [creditFor_gc]
    exact h
  | lookup call =>
    rw [step, lookupSection]
    cases hfind : s.store.find call.key with
    | none => exact h
    | some bucket => exact charges_answer key h (charge_consume key hfind s.waiting _)
  | create call =>
    rw [step]
    split
    · next hwaiting =>
      rw [createSection]
      cases hfind : s.store.find call.key with
      | some bucket => exact charges_answer key h (charge_consume key hfind _ _)
      | none =>
        simp only
        split
        · apply charges_answer key h
          rw [if_neg fun h => Bool.false_ne_true h.2]
          exact .idle (le_refl _)
        · next hroom =>
          have hfull := hrefilled hwaiting hfind (Nat.lt_of_not_le hroom)
          exact charges_answer key h (charge_new key hburst hfind hfull _ _)
    · exact h

theorem allowedIn_le (hrate : 0 < opts.config.rate) (hburst : 1 ≤ opts.config.burst) (startedAt : Int) (turns : List Turn)
    (hrefilled : Runs.Along (step opts) (Refilled opts) (start startedAt) turns) (key : Bytes) (a b : Int) (hab : a ≤ b) :
    (allowedIn key a b (run opts startedAt turns).log : ℚ) ≤ opts.config.burst + opts.config.rate * seconds (b - a) := by
  have hcharges := hrefilled.invariant
    (I := fun s => Charges opts.config.rate opts.config.burst ⊤ (admissions key s.log) (creditFor opts s key)) .nil
    (fun s turn h hr => step_charges hburst key turn hr h) turns.length
  rw [List.take_length] at hcharges
  rw [allowedIn_eq, seconds_sub]
  exact hcharges.admitted_le (le_of_lt hrate) (by linarith) ((seconds_le_iff a b).2 hab)

end Charging

end Hical.RateLimiter
