import Hical.RateLimiter.Bound

namespace Hical.RateLimiter
open TokenBucket

section Capacity
variable {opts : RateLimiterOptions} {s : Limiter}

theorem size_gc (opts : RateLimiterOptions) (store : BucketStore) (now : Int) : (gc opts store now).size ≤ store.size := by
  rw [gc]
  split
  · exact Nat.le_refl _
  · exact List.length_filter_le ..

theorem size_createSection (h : s.store.size ≤ opts.maxEntries) (call : Call) :
    (createSection opts s.store call).1.size ≤ opts.maxEntries := by
  rw [createSection]
  cases hfind : s.store.find call.key with
  | some bucket => exact (size_put_present hfind _).symm ▸ h
  | none =>
    simp only
    split
    · exact h
    · next hroom =>
      rw [size_put_absent hfind]
      omega

theorem step_size (h : s.store.size ≤ opts.maxEntries) (turn : Turn) : (step opts s turn).store.size ≤ opts.maxEntries := by
  cases turn with
  | gc now => exact Nat.le_trans (size_gc opts s.store now) h
  | lookup call =>
    rw [step, lookupSection]
    cases hfind : s.store.find call.key with
    | none => exact h
    | some bucket => exact (size_put_present hfind _).symm ▸ h
  | create call =>
    rw [step]
    split
    · exact size_createSection h call
    · exact h

end Capacity

section Idling
variable {opts : RateLimiterOptions} {s : Limiter}

/-- A bucket owes nothing at the latest of the readings that it was given. -/
def Solvent (opts : RateLimiterOptions) (s : Limiter) : Prop :=
  ∀ key bucket, s.store.find key = some bucket → ∃ e ∈ s.log, e.1.key = key ∧
    -(opts.config.rate * seconds e.1.now) ≤ credit opts.config.rate bucket.tokens (seconds bucket.lastAccessNs)

/-- A bucket after a call, by what it owed before or by the call itself. -/
theorem consume_credit (opts : RateLimiterOptions) (bucket : RateLimitBucket) (now : Int) (hburst : 1 ≤ opts.config.burst) :
    credit opts.config.rate bucket.tokens (seconds bucket.lastAccessNs) ≤
        credit opts.config.rate (consume opts bucket now).1.tokens (seconds (consume opts bucket now).1.lastAccessNs) ∨
      -(opts.config.rate * seconds now) ≤
        credit opts.config.rate (consume opts bucket now).1.tokens (seconds (consume opts bucket now).1.lastAccessNs) := by
  rw [consume, seconds_sub]
  split
  · next h =>
    right
    change _ ≤ credit opts.config.rate (_ - 1) (seconds now)
    rw [credit]
    linarith
  · have hlevel := credit_level opts.config.rate opts.config.burst bucket.tokens (seconds bucket.lastAccessNs) (seconds now)
    change _ ≤ credit opts.config.rate (level ..) (seconds now) ∨ _ ≤ credit opts.config.rate (level ..) (seconds now)
    rw [hlevel]
    rcases min_choice (credit opts.config.rate bucket.tokens (seconds bucket.lastAccessNs))
      (opts.config.burst - opts.config.rate * seconds now) with h | h
    · exact .inl (le_of_eq h.symm)
    · right
      rw [h]
      linarith

theorem solvent_consume (h : Solvent opts s) (hburst : 1 ≤ opts.config.burst) {call : Call}
    (hfind : s.store.find call.key = some bucket) (waiting : List Call) (allowed : Bool) :
    Solvent opts { s with
      store := s.store.put call.key (consume opts bucket call.now).1
      waiting := waiting, log := s.log ++ [(call, allowed)] } := by
  intro key bucket' hfind'
  rw [find_put] at hfind'
  split at hfind'
  · next hkey =>
    subst hkey
    cases hfind'
    obtain ⟨e, he, hkey, hold⟩ := h _ _ hfind
    rcases consume_credit opts bucket call.now hburst with hless | hown
    · exact ⟨e, List.mem_append_left _ he, hkey, le_trans hold hless⟩
    · exact ⟨_, List.mem_append_right _ (List.mem_singleton_self _), rfl, hown⟩
  · obtain ⟨e, he, hrest⟩ := h _ _ hfind'
    exact ⟨e, List.mem_append_left _ he, hrest⟩

theorem Solvent.answered (h : Solvent opts s) (waiting : List Call) (entry : Call × Bool) :
    Solvent opts { s with waiting := waiting, log := s.log ++ [entry] } := by
  intro key bucket hfind
  obtain ⟨e, he, hrest⟩ := h key bucket hfind
  exact ⟨e, List.mem_append_left _ he, hrest⟩

theorem step_solvent (h : Solvent opts s) (hburst : 1 ≤ opts.config.burst) (turn : Turn) : Solvent opts (step opts s turn) := by
  cases turn with
  | gc now =>
    intro key bucket hfind
    rcases find_gc opts s.store now key with hsame | ⟨-, -, hgone, -⟩
    · exact h key bucket (hsame ▸ hfind)
    · have hnone : (step opts s (.gc now)).store.find key = none := hgone
      rw [hnone] at hfind
      cases hfind
  | lookup call =>
    rw [step, lookupSection]
    cases hfind : s.store.find call.key with
    | none => exact h
    | some bucket => exact solvent_consume h hburst hfind s.waiting _
  | create call =>
    rw [step]
    split
    · rw [createSection]
      cases hfind : s.store.find call.key with
      | some bucket => exact solvent_consume h hburst hfind _ _
      | none =>
        simp only
        split
        · exact h.answered _ _
        · intro key bucket hfind'
          rw [find_put] at hfind'
          split at hfind'
          · next hkey =>
            subst hkey
            cases hfind'
            refine ⟨_, List.mem_append_right _ (List.mem_singleton_self _), rfl, ?_⟩
            have hfull := le_max_right (opts.config.burst - 1) 0
            rw [credit]
            linarith
          · obtain ⟨e, he, hrest⟩ := h _ _ hfind'
            exact ⟨e, List.mem_append_left _ he, hrest⟩
    · exact h

/-- The time in which one token comes back has passed since every answer to the key. -/
def LongIdle (opts : RateLimiterOptions) (s : Limiter) (call : Call) : Prop :=
  ∀ e ∈ s.log, e.1.key = call.key → seconds e.1.now + 1 / opts.config.rate ≤ seconds call.now

theorem consume_idle (h : Solvent opts s) (hrate : 0 < opts.config.rate) (hburst : 1 ≤ opts.config.burst) {call : Call}
    (hidle : LongIdle opts s call) (hfind : s.store.find call.key = some bucket) :
    (consume opts bucket call.now).2 = true := by
  obtain ⟨e, he, hkey, hsolvent⟩ := h _ _ hfind
  have hpassed := mul_le_mul_of_nonneg_left (hidle e he hkey) (le_of_lt hrate)
  rw [mul_add, mul_one_div_cancel (ne_of_gt hrate)] at hpassed
  rw [credit] at hsolvent
  have hlevel : 1 ≤ min (bucket.tokens + seconds (call.now - bucket.lastAccessNs) * opts.config.rate) opts.config.burst := by
    apply le_min
    · rw [seconds_sub]
      linarith
    · exact hburst
  rw [consume]
  simp only [if_pos hlevel]

end Idling

section Ordered
variable {opts : RateLimiterOptions} {s : Limiter}

/-- No reading is ahead of `T`, and what was collected had been idle by then. -/
structure Settled (s : Limiter) (T : Int) : Prop where
  held : ∀ key bucket, s.store.find key = some bucket → 0 ≤ bucket.tokens ∧ bucket.lastAccessNs ≤ T
  gone : ∀ key bucket, s.collected key = some bucket → 0 ≤ bucket.tokens ∧ bucket.lastAccessNs + kIdleThreshold < T

theorem Settled.later (h : Settled s T) (hT : T ≤ T') : Settled s T' := by
  constructor
  · intro key bucket hfind
    obtain ⟨htokens, hlast⟩ := h.held key bucket hfind
    exact ⟨htokens, le_trans hlast hT⟩
  · intro key bucket hgone
    obtain ⟨htokens, hlast⟩ := h.gone key bucket hgone
    exact ⟨htokens, lt_of_lt_of_le hlast hT⟩

theorem consume_tokens (hrate : 0 < opts.config.rate) (hburst : 1 ≤ opts.config.burst) (h : 0 ≤ bucket.tokens)
    (hnow : bucket.lastAccessNs ≤ now) :
    0 ≤ (consume opts bucket now).1.tokens ∧ (consume opts bucket now).1.lastAccessNs = now := by
  have helapsed : 0 ≤ seconds (now - bucket.lastAccessNs) := by
    rw [seconds_sub]
    exact sub_nonneg.2 ((seconds_le_iff _ _).2 hnow)
  have hmore := mul_nonneg helapsed (le_of_lt hrate)
  rw [consume]
  split
  · next hlevel => exact ⟨sub_nonneg.2 hlevel, rfl⟩
  · exact ⟨le_min (by linarith) (by linarith), rfl⟩

theorem settled_put (h : Settled s now) {call : Call} (hnow : call.now = now) (htokens : 0 ≤ bucket.tokens)
    (hlast : bucket.lastAccessNs = call.now) (waiting : List Call) (log : List (Call × Bool)) :
    Settled { s with store := s.store.put call.key bucket, waiting := waiting, log := log } now := by
  constructor
  · intro key bucket' hfind
    rw [find_put] at hfind
    split at hfind
    · cases hfind
      exact ⟨htokens, le_of_eq (hlast.trans hnow)⟩
    · exact h.held key bucket' hfind
  · exact h.gone

theorem step_settled (hrate : 0 < opts.config.rate) (hburst : 1 ≤ opts.config.burst) (turn : Turn)
    (h : Settled s turn.now) : Settled (step opts s turn) turn.now := by
  cases turn with
  | gc now =>
    constructor
    · intro key bucket hfind
      rcases find_gc opts s.store now key with hsame | ⟨-, -, hgone, -⟩
      · exact h.held key bucket (hsame ▸ hfind)
      · have hnone : (step opts s (.gc now)).store.find key = none := hgone
        rw [hnone] at hfind
        cases hfind
    · intro key bucket hcollected
      rw [step] at hcollected
      simp only at hcollected
      rcases find_gc opts s.store now key with hsame | ⟨old, hold, hgone, hidle⟩
      · cases hfind : s.store.find key with
        | none | some b =>
          simp only [hsame, hfind] at hcollected
          exact h.gone key bucket hcollected
      · simp only [hold, hgone] at hcollected
        cases hcollected
        exact ⟨(h.held key _ hold).1, hidle⟩
  | lookup call =>
    rw [step, lookupSection]
    cases hfind : s.store.find call.key with
    | none => exact ⟨h.held, h.gone⟩
    | some bucket =>
      obtain ⟨htokens, hlast⟩ := h.held _ _ hfind
      obtain ⟨htokens, hlast⟩ := consume_tokens hrate hburst htokens hlast
      exact settled_put h rfl htokens hlast s.waiting _
  | create call =>
    rw [step]
    split
    · rw [createSection]
      cases hfind : s.store.find call.key with
      | some bucket =>
        obtain ⟨htokens, hlast⟩ := h.held _ _ hfind
        obtain ⟨htokens, hlast⟩ := consume_tokens hrate hburst htokens hlast
        exact settled_put h rfl htokens hlast _ _
      | none =>
        simp only
        split
        · exact ⟨h.held, h.gone⟩
        · exact settled_put h rfl (le_max_right _ _) rfl _ _
    · exact h

/-- A bucket that fills up in five minutes is never collected too early, as long as the readings are in
the order of the turns. -/
theorem refilled_along (hrate : 0 < opts.config.rate) (hburst : 1 ≤ opts.config.burst)
    (hfills : opts.config.burst ≤ opts.config.rate * 300) (turns : List Turn)
    (hordered : turns.Pairwise fun x y => x.now ≤ y.now) (h : ∀ turn ∈ turns, Settled s turn.now) :
    Runs.Along (step opts) (Refilled opts) s turns := by
  induction turns generalizing s with
  | nil => trivial
  | cons turn turns ih =>
    obtain ⟨hfirst, hordered⟩ := List.pairwise_cons.1 hordered
    have hturn := h turn (List.mem_cons_self ..)
    have hnext := step_settled hrate hburst turn hturn
    refine ⟨?_, ih hordered fun later hlater => hnext.later (hfirst later hlater)⟩
    cases turn with
    | gc now => trivial
    | lookup call => trivial
    | create call =>
      intro _ _ _ old hold
      obtain ⟨htokens, hlast⟩ := hturn.gone _ _ hold
      have hpassed : (300 : ℚ) ≤ seconds (call.now - old.lastAccessNs) := by
        have hns : kIdleThreshold ≤ call.now - old.lastAccessNs := by
          have hlt : old.lastAccessNs + kIdleThreshold < call.now := hlast
          omega
        have hsec := (seconds_le_iff _ _).2 hns
        have hthreshold : seconds kIdleThreshold = 300 := by
          rw [seconds, kIdleThreshold]
          norm_num
        rwa [hthreshold] at hsec
      have hback := mul_le_mul_of_nonneg_right hpassed (le_of_lt hrate)
      linarith

end Ordered

section Results
variable (opts : RateLimiterOptions)

/-- The bound, where no bucket comes back before its predecessor would have been full; when that is so;
who is let in again; and the size of the table. -/
theorem check_guarantees (hrate : 0 < opts.config.rate) (hburst : 1 ≤ opts.config.burst) (startedAt : Int)
    (turns : List Turn) :
    (Runs.Along (step opts) (Refilled opts) (start startedAt) turns → ∀ key a b, a ≤ b →
      (allowedIn key a b (run opts startedAt turns).log : ℚ) ≤ opts.config.burst + opts.config.rate * seconds (b - a)) ∧
    (opts.config.burst ≤ opts.config.rate * 300 → turns.Pairwise (fun x y => x.now ≤ y.now) →
      Runs.Along (step opts) (Refilled opts) (start startedAt) turns) ∧
    (∀ call, LongIdle opts (run opts startedAt turns) call →
      (∀ store allowed, lookupSection opts (run opts startedAt turns).store call = some (store, allowed) → allowed = true) ∧
      ∀ store, createSection opts (run opts startedAt turns).store call = (store, false) →
        (run opts startedAt turns).store.find call.key = none ∧
          opts.maxEntries ≤ (run opts startedAt turns).store.size) ∧
    (run opts startedAt turns).store.size ≤ opts.maxEntries := by
  refine ⟨allowedIn_le hrate hburst startedAt turns, ?_, ?_, ?_⟩
  · intro hfills hordered
    apply refilled_along hrate hburst hfills turns hordered
    intro turn _
    exact ⟨fun key bucket h => (nomatch h), fun key bucket h => (nomatch h)⟩
  · intro call hidle
    have hsolvent : Solvent opts (run opts startedAt turns) := by
      have h := Runs.invariant (P := Solvent opts) (step opts) (start startedAt) turns (fun key bucket h => (nomatch h))
        (fun n turn _ h => step_solvent h hburst turn) turns.length
      rwa [List.take_length] at h
    constructor
    · intro store allowed h
      obtain ⟨bucket, hfind, heq⟩ := Option.map_eq_some_iff.1 h
      cases heq
      exact consume_idle hsolvent hrate hburst hidle hfind
    · intro store h
      rw [createSection] at h
      cases hfind : (run opts startedAt turns).store.find call.key with
      | some bucket =>
        simp only [hfind] at h
        injection h with _ hno
        rw [consume_idle hsolvent hrate hburst hidle hfind] at hno
        cases hno
      | none =>
        simp only [hfind] at h
        split at h
        · next hfull => exact ⟨rfl, hfull⟩
        · injection h with _ hno
          cases hno
  · have h := Runs.invariant (P := fun s => s.store.size ≤ opts.maxEntries) (step opts) (start startedAt) turns
      (Nat.zero_le _) (fun n turn _ h => step_size h turn) turns.length
    rwa [List.take_length] at h

/-- A bucket is made and used, collected after five minutes, and made again. -/
def againTurns : List Turn :=
  [.lookup ⟨bytes "a", 0⟩, .create ⟨bytes "a", 0⟩, .lookup ⟨bytes "a", 5⟩, .gc 301000000000,
    .lookup ⟨bytes "a", 302000000000⟩, .create ⟨bytes "a", 302000000000⟩]

theorem check_guarantees_again :
    ((run {} 0 (againTurns.take 4)).store.find (bytes "a")).isNone = true ∧
      allowedIn (bytes "a") 0 302000000000 (run {} 0 againTurns).log = 3 ∧
      (allowedIn (bytes "a") 0 302000000000 (run {} 0 againTurns).log : ℚ) ≤
        20 + 10 * seconds (302000000000 - 0) := by
  have hguarantees := check_guarantees {} (by decide +kernel) (by decide +kernel) 0 againTurns
  refine ⟨by decide +kernel, by decide +kernel, ?_⟩
  apply hguarantees.1 (hguarantees.2.1 (by decide +kernel) _) (bytes "a") 0 302000000000 (by decide)
  simp [againTurns, Turn.now]

/-- One token in a thousand seconds, and room for one key. -/
def slow : RateLimiterOptions := { config := { rate := 1 / 1000, burst := 1 }, maxEntries := 1 }

def slowTurns : List Turn :=
  [.lookup ⟨bytes "a", 0⟩, .create ⟨bytes "a", 0⟩, .gc 301000000000, .lookup ⟨bytes "a", 301000000000⟩,
    .create ⟨bytes "a", 301000000000⟩]

/-- Collected after five minutes, the bucket comes back full; and another key finds no room. -/
theorem slow_collected :
    ¬ (allowedIn (bytes "a") 0 301000000000 (run slow 0 slowTurns).log : ℚ) ≤
        slow.config.burst + slow.config.rate * seconds (301000000000 - 0) ∧
      (createSection slow (run slow 0 slowTurns).store ⟨bytes "b", 301000000000⟩).2 = false := by
  have hcount : allowedIn (bytes "a") 0 301000000000 (run slow 0 slowTurns).log = 2 := by decide +kernel
  have hfull : (createSection slow (run slow 0 slowTurns).store ⟨bytes "b", 301000000000⟩).2 = false := by decide +kernel
  refine ⟨?_, hfull⟩
  rw [hcount, slow, seconds]
  norm_num

end Results

end Hical.RateLimiter
