import Hical.Db.StmtCache
import Hical.Lib.Effect

/-! The statements that a MySQL connection prepares, executes and closes. -/

namespace Hical.Db
open Lru Effect

/-- How the server answers. A statement is named by the number of the preparation that made it. -/
structure MysqlServer (σ ε ρ : Type) where
  text : σ → Bytes → Except ε ρ × σ
  prepare : σ → Bytes → Except ε Unit × σ
  bound : σ → Nat → List Bytes → Except ε ρ × σ
  close : σ → Nat → Except ε Unit × σ
  /-- The error says that there is no such prepared statement. -/
  unknownStatement : ε → Bool

/-- What a connection did at the server. -/
inductive Sent (ε ρ : Type) where
  | prepared (stmt : Nat)
  | executed (stmt : Nat) (answer : Except ε ρ)
  | closed (stmt : Nat)

structure MysqlConnection (σ ε ρ : Type) where
  server : σ
  stmtCache : StmtCache Nat
  made : Nat := 0
  /-- Not in the code: what was done so far, the last in front. -/
  sent : List (Sent ε ρ) := []

namespace MysqlConnection
variable {σ ε ρ R : Type} (srv : MysqlServer σ ε ρ)

def prepareStatement (sql : Bytes) : Eff (MysqlConnection σ ε ρ) ε Nat := Eff.of fun c =>
  match srv.prepare c.server sql with
  | (.error e, s) => (.error e, { c with server := s })
  | (.ok (), s) => (.ok c.made, { c with server := s, made := c.made + 1, sent := .prepared c.made :: c.sent })

def executeStatement (stmt : Nat) (params : List Bytes) : Eff (MysqlConnection σ ε ρ) ε ρ := Eff.of fun c =>
  ((srv.bound c.server stmt params).1, { c with
    server := (srv.bound c.server stmt params).2
    sent := .executed stmt (srv.bound c.server stmt params).1 :: c.sent })

def closeStatement (stmt : Nat) : Eff (MysqlConnection σ ε ρ) ε Unit := Eff.of fun c =>
  match srv.close c.server stmt with
  | (.error e, s) => (.error e, { c with server := s })
  | (.ok (), s) => (.ok (), { c with server := s, sent := .closed stmt :: c.sent })

/-- A call on `stmtCache_`. -/
def cacheCall (f : StmtCache Nat → α × StmtCache Nat) : Eff (MysqlConnection σ ε ρ) ε α := Eff.of fun c =>
  (.ok (f c.stmtCache).1, { c with stmtCache := (f c.stmtCache).2 })

/-- The statement that left the cache is closed, and an error is swallowed. -/
def closeEvicted : Option Nat → Eff (MysqlConnection σ ε ρ) ε Unit
  | none => pure ()
  | some stmt => do
    let _ ← (closeStatement srv stmt).attempt
    return ()

def prepareNew (sql : Bytes) : Eff (MysqlConnection σ ε ρ) ε Nat := do
  let stmt ← prepareStatement srv sql
  let evicted ← cacheCall fun cache => cache.insert sql stmt
  closeEvicted srv evicted
  return stmt

def getOrPrepare (sql : Bytes) : Eff (MysqlConnection σ ε ρ) ε Nat := do
  match ← cacheCall fun cache => cache.find sql with
  | some stmt => return stmt
  | none => prepareNew srv sql

/-- What follows on any exception of the first execution. -/
def retry (sql : Bytes) (params : List Bytes) : Eff (MysqlConnection σ ε ρ) ε ρ := do
  let _ ← cacheCall fun cache => cache.erase sql
  let freshStmt ← prepareStatement srv sql
  let boostResults ← executeStatement srv freshStmt params
  let evicted ← cacheCall fun cache => cache.insert sql freshStmt
  closeEvicted srv evicted
  return boostResults

def runStatement (sql : Bytes) (params : List Bytes) (stmt : Nat) : Eff (MysqlConnection σ ε ρ) ε ρ := do
  match ← (executeStatement srv stmt params).attempt with
  | .ok boostResults => return boostResults
  | .error _ => retry srv sql params

def query (convertResults : ρ → R) (sql : Bytes) (params : List Bytes) : Eff (MysqlConnection σ ε ρ) ε R := do
  if params.isEmpty then
    let boostResults ← Eff.of fun c => ((srv.text c.server sql).1, { c with server := (srv.text c.server sql).2 })
    return convertResults boostResults
  else
    let stmt ← getOrPrepare srv sql
    let boostResults ← runStatement srv sql params stmt
    return convertResults boostResults

end MysqlConnection

section Executions
variable {ε : Type}

/-- An execution of a prepared statement: its failure, and whether the server said that it did not
take place because it knows no such statement. -/
structure Execution (ε : Type) where
  failure : Option ε
  unknown : Bool

/-- What a parameterised query may do: execute again only what was not executed, and pass on every
other failure. -/
structure AtMostOnce (execs : List (Execution ε)) (result : Except ε R) : Prop where
  again : ∀ first second rest, execs = first :: second :: rest → first.failure.isSome ∧ first.unknown = true
  told : ∀ first rest e, execs = first :: rest → first.failure = some e → first.unknown = false →
    rest = [] ∧ result = .error e

theorem atMostOnce_nil (result : Except ε R) : AtMostOnce [] result :=
  ⟨fun _ _ _ h => (nomatch h), fun _ _ _ h => (nomatch h)⟩

theorem atMostOnce_done (result : Except ε R) (unknown : Bool) : AtMostOnce [⟨none, unknown⟩] result := by
  constructor
  · intro first second rest h
    cases h
  · intro first rest e h hfail
    cases h
    cases hfail

theorem atMostOnce_failed {e e' : ε} {unknown : Bool} :
    AtMostOnce [⟨some e, unknown⟩] (.error e' : Except ε R) ↔ unknown = true ∨ e' = e := by
  constructor
  · intro h
    cases unknown with
    | true => exact .inl rfl
    | false =>
      have hresult := (h.told ⟨some e, false⟩ [] e rfl rfl rfl).2
      exact .inr (Except.error.inj hresult)
  · intro h
    constructor
    · intro first second rest hexecs
      cases hexecs
    · intro first rest e'' hexecs hfail hknown
      cases hexecs
      cases hfail
      rcases h with h | h
      · exact absurd hknown (by simp [h])
      · exact ⟨rfl, congrArg _ h⟩

theorem atMostOnce_again {e : ε} {unknown : Bool} {second : Execution ε} {result : Except ε R} :
    AtMostOnce [⟨some e, unknown⟩, second] result ↔ unknown = true := by
  constructor
  · intro h
    exact (h.again _ _ _ rfl).2
  · intro h
    constructor
    · intro first second' rest hexecs
      cases hexecs
      exact ⟨rfl, h⟩
    · intro first rest e' hexecs hfail hknown
      cases hexecs
      exact absurd hknown (by simp [h])

end Executions

namespace MysqlConnection
variable {σ ε ρ R : Type} {srv : MysqlServer σ ε ρ} {c c₁ : MysqlConnection σ ε ρ}

def executionOf (srv : MysqlServer σ ε ρ) : Sent ε ρ → Option (Execution ε)
  | .executed _ (.ok _) => some ⟨none, false⟩
  | .executed _ (.error e) => some ⟨some e, srv.unknownStatement e⟩
  | _ => none

def executions (srv : MysqlServer σ ε ρ) (sent : List (Sent ε ρ)) : List (Execution ε) :=
  sent.reverse.filterMap (executionOf srv)

def since (srv : MysqlServer σ ε ρ) (c c' : MysqlConnection σ ε ρ) : List (Execution ε) :=
  (executions srv c'.sent).drop (executions srv c.sent).length

theorem exec_prepareStatement_ok (h : srv.prepare c.server sql = (.ok (), s)) :
    (prepareStatement srv sql).exec c =
      (.ok c.made, { c with server := s, made := c.made + 1, sent := .prepared c.made :: c.sent }) := by
  rw [prepareStatement, exec_of, h]

theorem exec_prepareStatement_error (h : srv.prepare c.server sql = (.error e, s)) :
    (prepareStatement srv sql).exec c = (.error e, { c with server := s }) := by
  rw [prepareStatement, exec_of, h]

/-- The state after the statement that left the cache is closed. -/
def afterEvicted (srv : MysqlServer σ ε ρ) (c : MysqlConnection σ ε ρ) : Option Nat → MysqlConnection σ ε ρ
  | none => c
  | some stmt => ((closeStatement srv stmt).exec c).2

theorem exec_closeEvicted (evicted : Option Nat) :
    (closeEvicted srv evicted).exec c = (.ok (), afterEvicted srv c evicted) := by
  cases evicted with
  | none => rfl
  | some stmt => rfl

theorem executions_closeStatement (stmt : Nat) :
    executions srv ((closeStatement srv stmt).exec c).2.sent = executions srv c.sent := by
  rw [closeStatement, exec_of]
  split
  · rfl
  · rw [executions, List.reverse_cons, List.filterMap_append]
    exact List.append_nil _

theorem executions_afterEvicted (evicted : Option Nat) :
    executions srv (afterEvicted srv c evicted).sent = executions srv c.sent := by
  cases evicted with
  | none => rfl
  | some stmt => exact executions_closeStatement stmt

theorem executions_prepared (stmt : Nat) (sent : List (Sent ε ρ)) :
    executions srv (.prepared stmt :: sent) = executions srv sent := by
  rw [executions, List.reverse_cons, List.filterMap_append]
  exact List.append_nil _

theorem executions_executed (stmt : Nat) (answer : Except ε ρ) (sent : List (Sent ε ρ)) :
    executions srv (.executed stmt answer :: sent) =
      executions srv sent ++ (executionOf srv (.executed stmt answer)).toList := by
  rw [executions, List.reverse_cons, List.filterMap_append]
  cases answer with
  | ok r => rfl
  | error e => rfl

/-- A statement that is prepared and cached, and whoever leaves the cache for it closed. -/
def afterInsert (srv : MysqlServer σ ε ρ) (c : MysqlConnection σ ε ρ) (sql : Bytes) (stmt : Nat) :
    MysqlConnection σ ε ρ :=
  afterEvicted srv { c with stmtCache := (c.stmtCache.insert sql stmt).2 } (c.stmtCache.insert sql stmt).1

/-- What `getOrPrepare` does. -/
inductive GotOrPrepared (srv : MysqlServer σ ε ρ) (c : MysqlConnection σ ε ρ) (sql : Bytes) :
    Except ε Nat → MysqlConnection σ ε ρ → Prop where
  | hit (h : c.stmtCache.find sql = (some stmt, cache)) : GotOrPrepared srv c sql (.ok stmt) { c with stmtCache := cache }
  | failed (h : c.stmtCache.find sql = (none, cache)) (hp : srv.prepare c.server sql = (.error e, s)) :
      GotOrPrepared srv c sql (.error e) { c with stmtCache := cache, server := s }
  | made (h : c.stmtCache.find sql = (none, cache)) (hp : srv.prepare c.server sql = (.ok (), s)) :
      GotOrPrepared srv c sql (.ok c.made) (afterInsert srv { c with
        stmtCache := cache, server := s, made := c.made + 1, sent := .prepared c.made :: c.sent } sql c.made)

theorem exec_getOrPrepare (srv : MysqlServer σ ε ρ) (sql : Bytes) (c : MysqlConnection σ ε ρ) :
    GotOrPrepared srv c sql ((getOrPrepare srv sql).exec c).1 ((getOrPrepare srv sql).exec c).2 := by
  rw [getOrPrepare, exec_bind, cacheCall, exec_of]
  dsimp only
  cases hf : c.stmtCache.find sql with
  | mk found cache =>
    cases found with
    | some stmt => exact .hit hf
    | none =>
      dsimp only
      rw [prepareNew, exec_bind]
      cases hp : srv.prepare c.server sql with
      | mk r s =>
        cases r with
        | error e =>
          rw [exec_prepareStatement_error (c := { c with stmtCache := cache }) hp]
          exact .failed hf hp
        | ok u =>
          rw [exec_prepareStatement_ok (c := { c with stmtCache := cache }) hp]
          dsimp only
          rw [exec_bind, cacheCall, exec_of]
          dsimp only
          rw [exec_bind, exec_closeEvicted]
          exact .made hf hp

theorem GotOrPrepared.executions (h : GotOrPrepared srv c sql r c₁) :
    MysqlConnection.executions srv c₁.sent = MysqlConnection.executions srv c.sent := by
  cases h with
  | hit h => rfl
  | failed h hp => rfl
  | made h hp =>
    rw [afterInsert, executions_afterEvicted]
    exact executions_prepared ..

/-- What `retry` does: prepare anew, or execute the statement once more. -/
theorem exec_retry (srv : MysqlServer σ ε ρ) (sql : Bytes) (params : List Bytes) (c : MysqlConnection σ ε ρ) :
    (∃ e s, srv.prepare c.server sql = (.error e, s) ∧ ((retry srv sql params).exec c).1 = .error e ∧
      executions srv ((retry srv sql params).exec c).2.sent = executions srv c.sent) ∨
    ∃ s second, srv.prepare c.server sql = (.ok (), s) ∧
      executions srv ((retry srv sql params).exec c).2.sent = executions srv c.sent ++ [second] := by
  rw [retry, exec_bind, cacheCall, exec_of]
  dsimp only
  rw [exec_bind]
  cases hp : srv.prepare c.server sql with
  | mk r s =>
    cases r with
    | error e =>
      rw [exec_prepareStatement_error (c := { c with stmtCache := (c.stmtCache.erase sql).2 }) hp]
      exact .inl ⟨e, s, rfl, rfl, rfl⟩
    | ok u =>
      apply Or.inr
      rw [exec_prepareStatement_ok (c := { c with stmtCache := (c.stmtCache.erase sql).2 }) hp]
      dsimp only
      rw [exec_bind, executeStatement, exec_of]
      dsimp only
      cases hb : (srv.bound s c.made params).1 with
      | error e =>
        refine ⟨s, ⟨some e, srv.unknownStatement e⟩, rfl, ?_⟩
        dsimp only
        rw [executions_executed, executions_prepared]
        rfl
      | ok results =>
        refine ⟨s, ⟨none, false⟩, rfl, ?_⟩
        dsimp only
        rw [exec_bind, cacheCall, exec_of]
        dsimp only
        rw [exec_bind, exec_closeEvicted]
        change executions srv (afterEvicted srv _ _).sent = _
        rw [executions_afterEvicted, executions_executed, executions_prepared]
        rfl

theorem since_of_append (h : executions srv c₁.sent = executions srv c.sent ++ l) : since srv c c₁ = l := by
  rw [since, h, List.drop_left]

/-- When a parameterised query keeps to one execution: it has no parameters to bind, or the first
execution fails only for want of the statement, or as the preparation after it fails again. -/
def Settles (srv : MysqlServer σ ε ρ) (c : MysqlConnection σ ε ρ) (sql : Bytes) (params : List Bytes) : Prop :=
  params = [] ∨ ∀ stmt c₁ e s, (getOrPrepare srv sql).exec c = (.ok stmt, c₁) →
    srv.bound c₁.server stmt params = (.error e, s) →
    srv.unknownStatement e = true ∨ (srv.prepare s sql).1 = .error e

theorem exec_query_text (convertResults : ρ → R) (sql : Bytes) :
    executions srv ((query srv convertResults sql []).exec c).2.sent = executions srv c.sent := by
  change executions srv ((_ >>= _ : Eff (MysqlConnection σ ε ρ) ε R).exec c).2.sent = _
  rw [exec_bind, exec_of]
  split
  · next h =>
    rw [← (Prod.mk.inj h).2]
    rfl
  · next h =>
    rw [← (Prod.mk.inj h).2]

theorem exec_query_bound (convertResults : ρ → R) (sql : Bytes) (hparams : params ≠ []) :
    (query srv convertResults sql params).exec c =
      (getOrPrepare srv sql >>= fun stmt => runStatement srv sql params stmt >>= fun r =>
        pure (convertResults r)).exec c := by
  rw [query, if_neg (by simpa using hparams)]

theorem exec_runStatement_error (hb : srv.bound c.server stmt params = (.error e, s)) :
    (runStatement srv sql params stmt).exec c = (retry srv sql params).exec
      { c with server := s, sent := .executed stmt (.error e) :: c.sent } := by
  rw [runStatement, exec_bind, exec_attempt, executeStatement, exec_of, hb]

theorem exec_runStatement_ok (hb : srv.bound c.server stmt params = (.ok r, s)) :
    (runStatement srv sql params stmt).exec c =
      (.ok r, { c with server := s, sent := .executed stmt (.ok r) :: c.sent }) := by
  rw [runStatement, exec_bind, exec_attempt, executeStatement, exec_of, hb]
  rfl

/-- A query executes at most once exactly if it settles. -/
theorem atMostOnce_iff (convertResults : ρ → R) (sql : Bytes) (params : List Bytes) :
    AtMostOnce (since srv c ((query srv convertResults sql params).exec c).2)
      ((query srv convertResults sql params).exec c).1 ↔ Settles srv c sql params := by
  by_cases hparams : params = []
  · subst hparams
    rw [since_of_append (l := []) ((exec_query_text convertResults sql).trans (List.append_nil _).symm)]
    exact ⟨fun _ => .inl rfl, fun _ => atMostOnce_nil _⟩
  rw [exec_query_bound convertResults sql hparams, exec_bind, Settles, or_iff_right hparams]
  have hgot := (exec_getOrPrepare srv sql c).executions
  rcases hg : (getOrPrepare srv sql).exec c with ⟨r | stmt, c₁⟩
  · rw [hg] at hgot
    rw [since_of_append (l := []) (hgot.trans (List.append_nil _).symm)]
    exact ⟨fun _ stmt c₁ e s h => (nomatch h), fun _ => atMostOnce_nil _⟩
  rw [hg] at hgot
  dsimp only at hgot ⊢
  rw [exec_bind]
  rcases hb : srv.bound c₁.server stmt params with ⟨e | r, s⟩
  · rw [exec_runStatement_error hb]
    have hfirst : executions srv (.executed stmt (.error e) :: c₁.sent) =
        executions srv c.sent ++ [⟨some e, srv.unknownStatement e⟩] := by
      rw [executions_executed, hgot]
      rfl
    have hsettles : (∀ stmt' c' e' s', (Except.ok stmt, c₁) = ((.ok stmt', c') : Except ε Nat × _) →
        srv.bound c'.server stmt' params = (.error e', s') →
        srv.unknownStatement e' = true ∨ (srv.prepare s' sql).1 = .error e') ↔
        srv.unknownStatement e = true ∨ (srv.prepare s sql).1 = .error e := by
      constructor
      · intro h
        exact h stmt c₁ e s rfl hb
      · intro h stmt' c' e' s' heq hb'
        cases heq
        rw [hb] at hb'
        cases hb'
        exact h
    rw [hsettles]
    rcases exec_retry srv sql params { c₁ with server := s, sent := .executed stmt (.error e) :: c₁.sent } with
      ⟨e', s', hp, hr, hex⟩ | ⟨s', second, hp, hex⟩
    · have hp : srv.prepare s sql = (.error e', s') := hp
      rcases hx : (retry srv sql params).exec { c₁ with server := s, sent := .executed stmt (.error e) :: c₁.sent } with
        ⟨e'' | r, c₂⟩
      · rw [hx] at hr hex
        cases Except.error.inj hr
        rw [since_of_append (hex.trans hfirst), atMostOnce_failed, hp]
        constructor
        · rintro (h | rfl)
          · exact .inl h
          · exact .inr rfl
        · rintro (h | h)
          · exact .inl h
          · exact .inr (Except.error.inj h)
      · rw [hx] at hr
        cases hr
    · have hp : srv.prepare s sql = (.ok (), s') := hp
      have hlog : executions srv ((retry srv sql params).exec
          { c₁ with server := s, sent := .executed stmt (.error e) :: c₁.sent }).2.sent =
          executions srv c.sent ++ [⟨some e, srv.unknownStatement e⟩, second] := by
        rw [hex, hfirst, List.append_assoc]
        rfl
      rw [hp]
      rcases hx : (retry srv sql params).exec { c₁ with server := s, sent := .executed stmt (.error e) :: c₁.sent } with
        ⟨e'' | r, c₂⟩
      · rw [hx] at hlog
        rw [since_of_append hlog, atMostOnce_again]
        exact ⟨.inl, fun h => h.resolve_right fun h => (nomatch h)⟩
      · rw [hx] at hlog
        change AtMostOnce (since srv c c₂) _ ↔ _
        rw [since_of_append hlog, atMostOnce_again]
        exact ⟨.inl, fun h => h.resolve_right fun h => (nomatch h)⟩
  · rw [exec_runStatement_ok hb]
    have hlog : executions srv (.executed stmt (.ok r) :: c₁.sent) = executions srv c.sent ++ [⟨none, false⟩] := by
      rw [executions_executed, hgot]
      rfl
    change AtMostOnce (since srv c { c₁ with server := s, sent := .executed stmt (.ok r) :: c₁.sent }) _ ↔ _
    rw [since_of_append hlog]
    constructor
    · intro _ stmt' c' e' s' heq hb'
      cases heq
      rw [hb] at hb'
      cases hb'
    · intro _
      exact atMostOnce_done _ _

section Lifetime

/-- The statement was prepared and is not closed. -/
def Open (sent : List (Sent ε ρ)) (stmt : Nat) : Prop := .prepared stmt ∈ sent ∧ .closed stmt ∉ sent

/-- Only open statements were executed, and only open ones closed. -/
def Proper : List (Sent ε ρ) → Prop
  | [] => True
  | .prepared stmt :: sent => .prepared stmt ∉ sent ∧ Proper sent
  | .executed stmt _ :: sent => Open sent stmt ∧ Proper sent
  | .closed stmt :: sent => Open sent stmt ∧ Proper sent

/-- The open statements are those in the cache. -/
structure Tidy (c : MysqlConnection σ ε ρ) : Prop where
  proper : Proper c.sent
  cached : ∀ stmt, Open c.sent stmt ↔ stmt ∈ c.stmtCache.statements

/-- What the queries keep besides. -/
structure Sound (c : MysqlConnection σ ε ρ) : Prop extends Tidy c where
  enabled : c.stmtCache.maxSize ≠ 0
  rep : c.stmtCache.cache.Rep c.stmtCache.maxSize
  below : ∀ stmt, .prepared stmt ∈ c.sent → stmt < c.made
  once : c.stmtCache.statements.Nodup

/-- A query in which nothing goes wrong at the server after the preparation: the statement that leaves the
cache is closed, and the first execution succeeds. -/
structure Clean (srv : MysqlServer σ ε ρ) (c : MysqlConnection σ ε ρ) (sql : Bytes) (params : List Bytes) : Prop where
  closes : ∀ s evicted, srv.prepare c.server sql = (.ok (), s) →
    (c.stmtCache.insert sql c.made).1 = some evicted → ∃ s', srv.close s evicted = (.ok (), s')
  executes : ∀ stmt c₁, (getOrPrepare srv sql).exec c = (.ok stmt, c₁) →
    ∃ r s, srv.bound c₁.server stmt params = (.ok r, s)

/-- Queries one after another, each of them clean or without parameters. -/
inductive CleanRun (srv : MysqlServer σ ε ρ) (convertResults : ρ → R) (start : MysqlConnection σ ε ρ) :
    MysqlConnection σ ε ρ → Prop where
  | start : CleanRun srv convertResults start start
  | query {c : MysqlConnection σ ε ρ} (h : CleanRun srv convertResults start c) (sql : Bytes) (params : List Bytes)
      (hc : params = [] ∨ Clean srv c sql params) :
      CleanRun srv convertResults start ((MysqlConnection.query srv convertResults sql params).exec c).2

theorem Proper.prepared_of_closed {sent : List (Sent ε ρ)} (h : Proper sent) (hm : .closed stmt ∈ sent) :
    .prepared stmt ∈ sent := by
  induction sent with
  | nil => cases hm
  | cons e sent ih =>
    cases e with
    | prepared other | executed other answer =>
      rcases List.mem_cons.1 hm with heq | hm
      · cases heq
      · exact List.mem_cons_of_mem _ (ih h.2 hm)
    | closed other =>
      rcases List.mem_cons.1 hm with heq | hm
      · cases heq
        exact List.mem_cons_of_mem _ h.1.1
      · exact List.mem_cons_of_mem _ (ih h.2 hm)

theorem open_prepared {sent : List (Sent ε ρ)} (h : .closed new ∉ sent) :
    Open (.prepared new :: sent) stmt ↔ stmt = new ∨ Open sent stmt := by
  constructor
  · intro ho
    rcases List.mem_cons.1 ho.1 with heq | hm
    · cases heq
      exact .inl rfl
    · exact .inr ⟨hm, fun hc => ho.2 (List.mem_cons_of_mem _ hc)⟩
  · rintro (rfl | ho)
    · exact ⟨List.mem_cons_self .., fun hc => h ((List.mem_cons.1 hc).resolve_left fun heq => (nomatch heq))⟩
    · exact ⟨List.mem_cons_of_mem _ ho.1, fun hc => ho.2 ((List.mem_cons.1 hc).resolve_left fun heq => (nomatch heq))⟩

theorem open_executed {sent : List (Sent ε ρ)} {answer : Except ε ρ} :
    Open (.executed other answer :: sent) stmt ↔ Open sent stmt := by
  constructor
  · intro ho
    exact ⟨(List.mem_cons.1 ho.1).resolve_left fun heq => (nomatch heq), fun hc => ho.2 (List.mem_cons_of_mem _ hc)⟩
  · intro ho
    exact ⟨List.mem_cons_of_mem _ ho.1, fun hc => ho.2 ((List.mem_cons.1 hc).resolve_left fun heq => (nomatch heq))⟩

theorem open_closed {sent : List (Sent ε ρ)} : Open (.closed gone :: sent) stmt ↔ Open sent stmt ∧ stmt ≠ gone := by
  constructor
  · intro ho
    refine ⟨⟨(List.mem_cons.1 ho.1).resolve_left fun heq => (nomatch heq), fun hc => ho.2 (List.mem_cons_of_mem _ hc)⟩, ?_⟩
    rintro rfl
    exact ho.2 (List.mem_cons_self ..)
  · rintro ⟨ho, hne⟩
    refine ⟨List.mem_cons_of_mem _ ho.1, fun hc => ?_⟩
    rcases List.mem_cons.1 hc with heq | hc
    · cases heq
      exact hne rfl
    · exact ho.2 hc

theorem Sound.afterInsert (h : Sound c) (hf : c.stmtCache.cache.find sql = none)
    (hcloses : ∀ evicted, (c.stmtCache.insert sql c.made).1 = some evicted →
      ∃ s', srv.close s evicted = (.ok (), s')) :
    Sound (afterInsert srv { c with server := s, made := c.made + 1, sent := .prepared c.made :: c.sent } sql c.made) ∧
      Open (MysqlConnection.afterInsert srv { c with
        server := s, made := c.made + 1, sent := .prepared c.made :: c.sent } sql c.made).sent c.made := by
  have hfresh : .prepared c.made ∉ c.sent := fun hm => Nat.lt_irrefl _ (h.below _ hm)
  have hunclosed : .closed c.made ∉ c.sent := fun hm => hfresh (h.proper.prepared_of_closed hm)
  have hnew : c.made ∉ c.stmtCache.statements := fun hm => hfresh ((h.cached _).2 hm).1
  have hproper : Proper (.prepared c.made :: c.sent) := ⟨hfresh, h.proper⟩
  have hbelow : ∀ stmt, .prepared stmt ∈ (.prepared c.made :: c.sent) → stmt < c.made + 1 := by
    intro stmt hm
    rcases List.mem_cons.1 hm with heq | hm
    · cases heq
      exact Nat.lt_succ_self _
    · exact Nat.lt_succ_of_lt (h.below stmt hm)
  obtain ⟨hsize, hr⟩ := c.stmtCache.step_refines h.rep (.insert sql c.made)
  have hsize : (c.stmtCache.insert sql c.made).2.maxSize = c.stmtCache.maxSize := hsize
  have hrep : (c.stmtCache.insert sql c.made).2.cache.Rep (c.stmtCache.insert sql c.made).2.maxSize := by
    rw [hsize]
    exact hr.rep
  have hsize0 : (c.stmtCache.insert sql c.made).2.maxSize ≠ 0 := by
    rw [hsize]
    exact h.enabled
  rw [MysqlConnection.afterInsert]
  dsimp only
  rcases StmtCache.insert_new h.enabled hf c.made with ⟨hout, hstmts⟩ | ⟨victim, rest, hout, hsplit, hstmts⟩
  · rw [hout, afterEvicted]
    refine ⟨⟨⟨hproper, fun stmt => ?_⟩, hsize0, hrep, hbelow, ?_⟩, (open_prepared hunclosed).2 (.inl rfl)⟩
    · rw [open_prepared hunclosed, h.cached, hstmts, List.mem_cons]
    · rw [hstmts]
      exact List.nodup_cons.2 ⟨hnew, h.once⟩
  · have honce := h.once
    rw [hsplit] at hnew honce
    have hvictim : victim ∈ c.stmtCache.statements := by
      rw [hsplit]
      exact List.mem_append_right _ (List.mem_singleton.2 rfl)
    have hother : c.made ≠ victim := by
      rintro heq
      exact hnew (List.mem_append_right _ (List.mem_singleton.2 heq))
    have hopen : Open (.prepared c.made :: c.sent) victim := (open_prepared hunclosed).2 (.inr ((h.cached _).2 hvictim))
    obtain ⟨s', hclose⟩ := hcloses victim hout
    rw [hout, afterEvicted, closeStatement, exec_of, hclose]
    dsimp only
    refine ⟨⟨⟨⟨hopen, hproper⟩, fun stmt => ?_⟩, hsize0, hrep, fun stmt hm => ?_, ?_⟩, ?_⟩
    · rw [open_closed, open_prepared hunclosed, h.cached, hstmts, hsplit, List.mem_cons, List.mem_append,
        List.mem_singleton]
      constructor
      · rintro ⟨heq | hm | hm, hne⟩
        · exact .inl heq
        · exact .inr hm
        · exact absurd hm hne
      · rintro (rfl | hm)
        · exact ⟨.inl rfl, hother⟩
        · refine ⟨.inr (.inl hm), ?_⟩
          rintro rfl
          exact (List.nodup_append.1 honce).2.2 _ hm _ (List.mem_singleton.2 rfl) rfl
    · exact hbelow stmt ((List.mem_cons.1 hm).resolve_left fun heq => (nomatch heq))
    · rw [hstmts]
      exact List.nodup_cons.2 ⟨fun hm => hnew (List.mem_append_left _ hm), (List.nodup_append.1 honce).1⟩
    · exact open_closed.2 ⟨(open_prepared hunclosed).2 (.inl rfl), hother⟩

theorem Sound.getOrPrepare (h : Sound c) (hg : GotOrPrepared srv c sql r c₁)
    (hcloses : ∀ s evicted, srv.prepare c.server sql = (.ok (), s) →
      (c.stmtCache.insert sql c.made).1 = some evicted → ∃ s', srv.close s evicted = (.ok (), s')) :
    Sound c₁ ∧ ∀ stmt, r = .ok stmt → Open c₁.sent stmt := by
  cases hg with
  | @hit stmt cache hf =>
    obtain ⟨hsize, hrep, hmem, hperm⟩ := StmtCache.find_hit h.rep hf
    constructor
    · constructor
      · exact ⟨h.proper, fun other => (h.cached other).trans hperm.mem_iff.symm⟩
      · dsimp only
        rw [hsize]
        exact h.enabled
      · dsimp only
        rw [hsize]
        exact hrep
      · exact h.below
      · exact hperm.nodup_iff.2 h.once
    · intro other heq
      cases heq
      exact (h.cached _).2 hmem
  | failed hf hp =>
    obtain ⟨rfl, -⟩ := StmtCache.find_miss h.enabled hf
    exact ⟨⟨⟨h.proper, h.cached⟩, h.enabled, h.rep, h.below, h.once⟩, fun _ heq => (nomatch heq)⟩
  | made hf hp =>
    obtain ⟨rfl, hnone⟩ := StmtCache.find_miss h.enabled hf
    obtain ⟨hsound, hopen⟩ := h.afterInsert hnone fun evicted => hcloses _ evicted hp
    refine ⟨hsound, fun stmt heq => ?_⟩
    cases heq
    exact hopen

theorem Sound.query (h : Sound c) (convertResults : ρ → R) (sql : Bytes) (params : List Bytes)
    (hc : params = [] ∨ Clean srv c sql params) :
    Sound ((MysqlConnection.query srv convertResults sql params).exec c).2 := by
  by_cases hparams : params = []
  · subst hparams
    change Sound ((_ >>= _ : Eff (MysqlConnection σ ε ρ) ε R).exec c).2
    rw [exec_bind, exec_of]
    split
    · next heq =>
      rw [← (Prod.mk.inj heq).2]
      exact ⟨⟨h.proper, h.cached⟩, h.enabled, h.rep, h.below, h.once⟩
    · next heq =>
      rw [← (Prod.mk.inj heq).2]
      exact ⟨⟨h.proper, h.cached⟩, h.enabled, h.rep, h.below, h.once⟩
  have hc := hc.resolve_left hparams
  rw [exec_query_bound convertResults sql hparams, exec_bind]
  obtain ⟨hsound, hopen⟩ := h.getOrPrepare (exec_getOrPrepare srv sql c) hc.closes
  rcases hg : (MysqlConnection.getOrPrepare srv sql).exec c with ⟨e | stmt, c₁⟩
  · rw [hg] at hsound
    exact hsound
  · rw [hg] at hsound hopen
    obtain ⟨r, s, hb⟩ := hc.executes stmt c₁ hg
    dsimp only
    rw [exec_bind, exec_runStatement_ok hb]
    change Sound { c₁ with server := s, sent := .executed stmt (.ok r) :: c₁.sent }
    refine ⟨⟨⟨hopen stmt rfl, hsound.proper⟩, fun other => ?_⟩, hsound.enabled, hsound.rep, fun other hm => ?_,
      hsound.once⟩
    · exact open_executed.trans (hsound.cached other)
    · exact hsound.below other ((List.mem_cons.1 hm).resolve_left fun heq => (nomatch heq))

theorem sound_start (s : σ) (hpos : 0 < maxSize) : Sound (ε := ε) (ρ := ρ) { server := s, stmtCache := ⟨maxSize, {}⟩ } where
  proper := trivial
  cached _ := ⟨fun h => (nomatch h.1), fun h => (nomatch h)⟩
  enabled := Nat.ne_of_gt hpos
  rep := Cache.rep_empty _
  below _ h := nomatch h
  once := List.nodup_nil

/-- In a run of clean queries over a cache that is not disabled the open statements are the cached
ones, and no other is executed. -/
theorem tidy_of_cleanRun (srv : MysqlServer σ ε ρ) (convertResults : ρ → R) (s : σ) (hpos : 0 < maxSize)
    (c : MysqlConnection σ ε ρ)
    (h : CleanRun srv convertResults { server := s, stmtCache := ⟨maxSize, {}⟩ } c) : Tidy c := by
  have hsound : Sound c := by
    induction h with
    | start => exact sound_start s hpos
    | query h sql params hc ih => exact ih.query convertResults sql params hc
  exact hsound.toTidy

def willing : MysqlServer Unit Unit Unit where
  text s _ := (.ok (), s)
  prepare s _ := (.ok (), s)
  bound s _ _ := (.ok (), s)
  close s _ := (.ok (), s)
  unknownStatement _ := false

theorem clean_willing (c : MysqlConnection Unit Unit Unit) (sql : Bytes) (params : List Bytes) :
    Clean willing c sql params :=
  ⟨fun _ _ _ _ => ⟨(), rfl⟩, fun _ _ _ => ⟨(), (), rfl⟩⟩

/-- One statement is used twice, and another one takes its place. -/
def reused : MysqlConnection Unit Unit Unit :=
  [bytes "a", bytes "a", bytes "b"].foldl (fun c sql => ((query willing id sql [bytes "1"]).exec c).2)
    { server := (), stmtCache := ⟨1, {}⟩ }

theorem tidy_of_cleanRun_reused : Tidy reused ∧
    reused.sent = [.executed 1 (.ok ()), .closed 0, .prepared 1, .executed 0 (.ok ()), .executed 0 (.ok ()),
      .prepared 0] := by
  refine ⟨tidy_of_cleanRun willing id () Nat.one_pos reused ?_, rfl⟩
  apply CleanRun.query _ _ _ (.inr (clean_willing _ _ _))
  apply CleanRun.query _ _ _ (.inr (clean_willing _ _ _))
  exact CleanRun.query .start _ _ (.inr (clean_willing _ _ _))

/-- With a cache of size zero the statement is executed after it was closed. -/
theorem closed_executed : ¬Tidy ((query willing id (bytes "a") [bytes "1"]).exec
    { server := (), stmtCache := ⟨0, {}⟩ }).2 := by
  intro h
  have hsent : ((query willing id (bytes "a") [bytes "1"]).exec { server := (), stmtCache := ⟨0, {}⟩ }).2.sent =
      [.executed 0 (.ok ()), .closed 0, .prepared 0] := rfl
  have hproper := h.proper
  rw [hsent] at hproper
  exact hproper.1.2 (List.mem_cons_self ..)

end Lifetime

end MysqlConnection

end Hical.Db
