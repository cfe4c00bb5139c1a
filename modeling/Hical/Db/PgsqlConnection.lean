import Hical.Db.MysqlConnection

/-! Parameterised queries of a PostgreSQL connection. -/

namespace Hical.Db
open Lru Effect

inductive ExecStatusType where
  | emptyQuery
  | commandOk
  | tuplesOk
  | copyOut
  | copyIn
  | badResponse
  | nonfatalError
  | fatalError
  deriving DecidableEq

structure PGresult where
  status : ExecStatusType
  sqlState : Bytes := []
  errorMessage : Bytes := []
  cmdTuples : Bytes := []
  columns : List Bytes := []
  /-- A value that is missing is NULL. -/
  rows : List (List (Option Bytes)) := []

inductive PgException where
  | systemError (code : Nat)
  | runtimeError (what : Bytes)

structure DbResult where
  columns : List Bytes := []
  affectedRows : Nat := 0
  insertId : Nat := 0
  cells : List Bytes := []
  nrows : Nat := 0

/-- libpq and the server: the exchange that sends a request and collects its results. -/
structure Libpq (σ : Type) where
  query : σ → Bytes → Except PgException (List PGresult) × σ
  prepare : σ → Bytes → Bytes → Except PgException (List PGresult) × σ
  execute : σ → Bytes → List Bytes → Except PgException (List PGresult) × σ

/-- `std::from_chars` for `uint64_t`, where it takes the whole text. -/
def parseUint64 (text : Bytes) : Option Nat :=
  let value := text.foldl (fun n c => 10 * n + (c.toNat - 48)) 0
  if text = [] ∨ text.all (fun c => decide (48 ≤ c) && decide (c ≤ 57)) = false ∨ 2 ^ 64 ≤ value then none else some value

def affectedRowsOf (result : PGresult) : Nat := (parseUint64 result.cmdTuples).getD 0

def upper (c : UInt8) : UInt8 := if 97 ≤ c ∧ c ≤ 122 then c - 97 + 65 else c

def hasReturningKeyword (sql : Bytes) : Bool := (sql.map upper).tails.any fun rest => (bytes "RETURNING").isPrefixOf rest

def convertResults (detectReturning : Bool) (result : PGresult) : Except PgException DbResult :=
  if result.status = .fatalError ∨ result.status = .badResponse then
    .error (.runtimeError (bytes "pgsql error: " ++ result.errorMessage))
  else if result.status = .commandOk then .ok { affectedRows := affectedRowsOf result }
  else if result.columns = [] then .ok {}
  else .ok {
    columns := result.columns
    insertId := if detectReturning then ((result.rows.head?.bind List.head?).join.bind parseUint64).getD 0 else 0
    cells := result.rows.flatMap fun row => row.map fun cell => cell.getD []
    nrows := result.rows.length }

def lastResult (what : String) : List PGresult → Except PgException PGresult
  | results => match results.getLast? with
    | none => .error (.runtimeError (bytes what))
    | some result => .ok result

def checkPrepared (result : PGresult) : Except PgException Unit :=
  if result.status = .commandOk then .ok ()
  else .error (.runtimeError (bytes "prepare failed: " ++ result.errorMessage))

structure PgsqlConnection (σ : Type) where
  server : σ
  stmtCache : PgStmtCache Bytes
  stmtCounter : Nat := 0
  /-- Not in the code: the executions of prepared statements, with what came back. -/
  executed : List (Bool × Except PgException PGresult) := []

namespace PgsqlConnection
variable {σ : Type} (srv : Libpq σ)

def stmtNameOf (counter : Nat) : Bytes := bytes "stmt_" ++ bytes (toString counter)

def prepareAnswer (s : σ) (stmtName sql : Bytes) : Except PgException Unit :=
  (srv.prepare s stmtName sql).1 >>= lastResult "prepare produced no PGresult" >>= checkPrepared

def sendPrepare (sql : Bytes) : Eff (PgsqlConnection σ) PgException Bytes := Eff.of fun c =>
  ((prepareAnswer srv c.server (stmtNameOf (c.stmtCounter + 1)) sql).map fun _ => stmtNameOf (c.stmtCounter + 1),
    { c with
      stmtCounter := c.stmtCounter + 1
      server := (srv.prepare c.server (stmtNameOf (c.stmtCounter + 1)) sql).2 })

def getOrPrepare (sql : Bytes) : Eff (PgsqlConnection σ) PgException Bytes := do
  let c ← get
  set { c with stmtCache := (c.stmtCache.find sql).2 }
  match (c.stmtCache.find sql).1 with
  | some stmtName => return stmtName
  | none =>
    let stmtName ← sendPrepare srv sql
    modify fun c => { c with stmtCache := c.stmtCache.insert sql stmtName }
    return stmtName

def executeAnswer (s : σ) (stmtName : Bytes) (params : List Bytes) : Except PgException PGresult :=
  (srv.execute s stmtName params).1 >>= lastResult "PQsendQueryPrepared produced no PGresult"

def executePrepared (stmtName : Bytes) (params : List Bytes) (detectReturning : Bool) :
    Eff (PgsqlConnection σ) PgException DbResult := Eff.of fun c =>
  (executeAnswer srv c.server stmtName params >>= convertResults detectReturning,
    { c with
      server := (srv.execute c.server stmtName params).2
      executed := c.executed ++ [(detectReturning, executeAnswer srv c.server stmtName params)] })

/-- What follows on any exception of the first execution. -/
def retry (sql : Bytes) (params : List Bytes) : Eff (PgsqlConnection σ) PgException DbResult := do
  modify fun c => { c with stmtCache := c.stmtCache.erase sql }
  let freshName ← getOrPrepare srv sql
  executePrepared srv freshName params (hasReturningKeyword sql)

def runStatement (sql : Bytes) (params : List Bytes) (stmtName : Bytes) : Eff (PgsqlConnection σ) PgException DbResult := do
  match ← (executePrepared srv stmtName params (hasReturningKeyword sql)).attempt with
  | .ok dbResult => return dbResult
  | .error _ => retry srv sql params

def queryText (sql : Bytes) : Eff (PgsqlConnection σ) PgException DbResult := Eff.of fun c =>
  ((srv.query c.server sql).1 >>= lastResult "query produced no PGresult" >>= convertResults (hasReturningKeyword sql),
    { c with server := (srv.query c.server sql).2 })

def query (sql : Bytes) (params : List Bytes) : Eff (PgsqlConnection σ) PgException DbResult := do
  if params.isEmpty then queryText srv sql
  else
    let stmtName ← getOrPrepare srv sql
    runStatement srv sql params stmtName

end PgsqlConnection

namespace PgsqlConnection
variable {σ : Type} {srv : Libpq σ} {c c₁ : PgsqlConnection σ}

/-- `invalid_sql_statement_name`. -/
def isUnknownStatement : Except PgException PGresult → Bool
  | .ok result => result.status == .fatalError && result.sqlState == bytes "26000"
  | .error _ => false

def executionOf (execution : Bool × Except PgException PGresult) : Execution PgException where
  failure := match execution.2 >>= convertResults execution.1 with
    | .ok _ => none
    | .error e => some e
  unknown := isUnknownStatement execution.2

def since (c c' : PgsqlConnection σ) : List (Execution PgException) :=
  (c'.executed.drop c.executed.length).map executionOf

theorem since_of_append (h : c₁.executed = c.executed ++ l) : since c c₁ = l.map executionOf := by
  rw [since, h, List.drop_left]

theorem exec_getOrPrepare_hit (hf : (c.stmtCache.find sql).1 = some stmtName) :
    (getOrPrepare srv sql).exec c = (.ok stmtName, { c with stmtCache := (c.stmtCache.find sql).2 }) := by
  rw [getOrPrepare, exec_bind, exec_get]
  change Eff.exec (set _ >>= _) c = _
  rw [exec_bind]
  change Eff.exec _ { c with stmtCache := (c.stmtCache.find sql).2 } = _
  rw [hf]
  rfl

theorem exec_getOrPrepare_miss (hf : (c.stmtCache.find sql).1 = none) :
    (getOrPrepare srv sql).exec c = (sendPrepare srv sql >>= fun stmtName =>
      (modify fun c => { c with stmtCache := c.stmtCache.insert sql stmtName }) >>= fun _ => pure stmtName).exec
        { c with stmtCache := (c.stmtCache.find sql).2 } := by
  rw [getOrPrepare, exec_bind, exec_get]
  change Eff.exec (set _ >>= _) c = _
  rw [exec_bind]
  change Eff.exec _ { c with stmtCache := (c.stmtCache.find sql).2 } = _
  rw [hf]

theorem exec_miss (srv : Libpq σ) (c : PgsqlConnection σ) (hf : (c.stmtCache.find sql).1 = none) :
    ((getOrPrepare srv sql).exec c).1 = (prepareAnswer srv c.server (stmtNameOf (c.stmtCounter + 1)) sql).map
      (fun _ => stmtNameOf (c.stmtCounter + 1)) ∧ ((getOrPrepare srv sql).exec c).2.executed = c.executed := by
  rw [exec_getOrPrepare_miss hf, exec_bind, sendPrepare, exec_of]
  dsimp only
  cases prepareAnswer srv c.server (stmtNameOf (c.stmtCounter + 1)) sql with
  | error e => exact ⟨rfl, rfl⟩
  | ok u => exact ⟨rfl, rfl⟩

theorem executed_getOrPrepare (srv : Libpq σ) (sql : Bytes) (c : PgsqlConnection σ) :
    ((getOrPrepare srv sql).exec c).2.executed = c.executed := by
  cases hf : (c.stmtCache.find sql).1 with
  | none => exact (exec_miss srv c hf).2
  | some stmtName => rw [exec_getOrPrepare_hit hf]

theorem find_erase (cache : PgStmtCache Bytes) (sql : Bytes) : ((cache.erase sql).find sql).1 = none := by
  rw [PgStmtCache.find, PgStmtCache.erase, Cache.find_erase_self]

/-- What `retry` does: prepare anew, or execute the statement once more. -/
theorem exec_retry (srv : Libpq σ) (sql : Bytes) (params : List Bytes) (c : PgsqlConnection σ) :
    (∃ e, prepareAnswer srv c.server (stmtNameOf (c.stmtCounter + 1)) sql = .error e ∧
      ((retry srv sql params).exec c).1 = .error e ∧ ((retry srv sql params).exec c).2.executed = c.executed) ∨
    ∃ second, prepareAnswer srv c.server (stmtNameOf (c.stmtCounter + 1)) sql = .ok () ∧
      ((retry srv sql params).exec c).2.executed = c.executed ++ [second] := by
  rw [retry, exec_bind, exec_modify]
  dsimp only
  rw [exec_bind]
  obtain ⟨hr, hx⟩ := exec_miss srv { c with stmtCache := c.stmtCache.erase sql } (find_erase c.stmtCache sql)
  rcases hg : (getOrPrepare srv sql).exec { c with stmtCache := c.stmtCache.erase sql } with ⟨e | freshName, c₂⟩
  · rw [hg] at hr hx
    cases hp : prepareAnswer srv c.server (stmtNameOf (c.stmtCounter + 1)) sql with
    | error e' =>
      rw [hp] at hr
      cases hr
      exact .inl ⟨e, rfl, rfl, hx⟩
    | ok u =>
      rw [hp] at hr
      cases hr
  · rw [hg] at hr hx
    cases hp : prepareAnswer srv c.server (stmtNameOf (c.stmtCounter + 1)) sql with
    | error e' =>
      rw [hp] at hr
      cases hr
    | ok u =>
      have hx : c₂.executed = c.executed := hx
      rw [← hx]
      exact .inr ⟨_, rfl, rfl⟩

/-- When a parameterised query keeps to one execution. -/
def Settles (srv : Libpq σ) (c : PgsqlConnection σ) (sql : Bytes) (params : List Bytes) : Prop :=
  params = [] ∨ ∀ stmtName c₁ e, (getOrPrepare srv sql).exec c = (.ok stmtName, c₁) →
    executeAnswer srv c₁.server stmtName params >>= convertResults (hasReturningKeyword sql) = .error e →
    isUnknownStatement (executeAnswer srv c₁.server stmtName params) = true ∨
      prepareAnswer srv (srv.execute c₁.server stmtName params).2 (stmtNameOf (c₁.stmtCounter + 1)) sql = .error e

def afterFirst (srv : Libpq σ) (c : PgsqlConnection σ) (sql : Bytes) (params : List Bytes) (stmtName : Bytes) :
    PgsqlConnection σ :=
  { c with
    server := (srv.execute c.server stmtName params).2
    executed := c.executed ++ [(hasReturningKeyword sql, executeAnswer srv c.server stmtName params)] }

theorem exec_runStatement (srv : Libpq σ) (sql : Bytes) (params : List Bytes) (stmtName : Bytes) :
    (runStatement srv sql params stmtName).exec c =
      match executeAnswer srv c.server stmtName params >>= convertResults (hasReturningKeyword sql) with
      | .ok dbResult => (.ok dbResult, afterFirst srv c sql params stmtName)
      | .error _ => (retry srv sql params).exec (afterFirst srv c sql params stmtName) := by
  rw [runStatement, exec_bind, exec_attempt, executePrepared, exec_of]
  dsimp only
  cases executeAnswer srv c.server stmtName params >>= convertResults (hasReturningKeyword sql) with
  | ok dbResult => rfl
  | error e => rfl

theorem atMostOnce_iff (srv : Libpq σ) (c : PgsqlConnection σ) (sql : Bytes) (params : List Bytes) :
    AtMostOnce (since c ((query srv sql params).exec c).2) ((query srv sql params).exec c).1 ↔
      Settles srv c sql params := by
  by_cases hparams : params = []
  · subst hparams
    have hnone : since c ((query srv sql []).exec c).2 = [] :=
      since_of_append (l := []) (List.append_nil c.executed).symm
    rw [hnone]
    exact ⟨fun _ => .inl rfl, fun _ => atMostOnce_nil _⟩
  have hquery : (query srv sql params).exec c =
      (getOrPrepare srv sql >>= fun stmtName => runStatement srv sql params stmtName).exec c := by
    rw [query, if_neg (by simpa using hparams)]
  rw [hquery, exec_bind, Settles, or_iff_right hparams]
  have hgot := executed_getOrPrepare srv sql c
  rcases hg : (getOrPrepare srv sql).exec c with ⟨e | stmtName, c₁⟩
  · rw [hg] at hgot
    rw [since_of_append (l := []) (hgot.trans (List.append_nil _).symm)]
    exact ⟨fun _ stmtName c₁ e h => (nomatch h), fun _ => atMostOnce_nil _⟩
  rw [hg] at hgot
  dsimp only at hgot ⊢
  have hfirst : (afterFirst srv c₁ sql params stmtName).executed =
      c.executed ++ [(hasReturningKeyword sql, executeAnswer srv c₁.server stmtName params)] := by
    rw [← hgot]
    rfl
  have hsettles : (∀ name c' e, (Except.ok stmtName, c₁) = ((.ok name, c') : Except PgException Bytes × _) →
      executeAnswer srv c'.server name params >>= convertResults (hasReturningKeyword sql) = .error e →
      isUnknownStatement (executeAnswer srv c'.server name params) = true ∨
        prepareAnswer srv (srv.execute c'.server name params).2 (stmtNameOf (c'.stmtCounter + 1)) sql = .error e) ↔
      ∀ e, executeAnswer srv c₁.server stmtName params >>= convertResults (hasReturningKeyword sql) = .error e →
        isUnknownStatement (executeAnswer srv c₁.server stmtName params) = true ∨
          prepareAnswer srv (srv.execute c₁.server stmtName params).2 (stmtNameOf (c₁.stmtCounter + 1)) sql =
            .error e := by
    constructor
    · intro h e
      exact h stmtName c₁ e rfl
    · intro h name c' e heq
      cases heq
      exact h e
  rw [hsettles, exec_runStatement]
  cases ha : executeAnswer srv c₁.server stmtName params >>= convertResults (hasReturningKeyword sql) with
  | ok dbResult =>
    have hone : executionOf (hasReturningKeyword sql, executeAnswer srv c₁.server stmtName params) =
        ⟨none, isUnknownStatement (executeAnswer srv c₁.server stmtName params)⟩ := by
      rw [executionOf, ha]
    dsimp only
    rw [since_of_append hfirst, List.map_singleton, hone]
    exact ⟨fun _ e h => (nomatch h), fun _ => atMostOnce_done _ _⟩
  | error e =>
    have hone : executionOf (hasReturningKeyword sql, executeAnswer srv c₁.server stmtName params) =
        ⟨some e, isUnknownStatement (executeAnswer srv c₁.server stmtName params)⟩ := by
      rw [executionOf, ha]
    have herror : (∀ e', Except.error e = (.error e' : Except PgException DbResult) →
        isUnknownStatement (executeAnswer srv c₁.server stmtName params) = true ∨
          prepareAnswer srv (srv.execute c₁.server stmtName params).2 (stmtNameOf (c₁.stmtCounter + 1)) sql =
            .error e') ↔
        isUnknownStatement (executeAnswer srv c₁.server stmtName params) = true ∨
          prepareAnswer srv (srv.execute c₁.server stmtName params).2 (stmtNameOf (c₁.stmtCounter + 1)) sql =
            .error e := by
      constructor
      · intro h
        exact h e rfl
      · intro h e' heq
        cases heq
        exact h
    dsimp only
    rw [herror]
    rcases exec_retry srv sql params (afterFirst srv c₁ sql params stmtName) with ⟨e', hp, hr, hx⟩ | ⟨second, hp, hx⟩
    · have hp : prepareAnswer srv (srv.execute c₁.server stmtName params).2 (stmtNameOf (c₁.stmtCounter + 1)) sql =
          .error e' := hp
      rw [since_of_append (hx.trans hfirst), List.map_singleton, hone, hr, atMostOnce_failed, hp]
      constructor
      · intro h
        exact h.imp id (congrArg _)
      · intro h
        exact h.imp id Except.error.inj
    · have hp : prepareAnswer srv (srv.execute c₁.server stmtName params).2 (stmtNameOf (c₁.stmtCounter + 1)) sql =
          .ok () := hp
      rw [hfirst, List.append_assoc] at hx
      rw [since_of_append hx, List.map_append, List.map_singleton, List.map_singleton, hone, hp]
      change AtMostOnce [_, _] _ ↔ _
      rw [atMostOnce_again]
      exact ⟨.inl, fun h => h.resolve_right fun h => (nomatch h)⟩

end PgsqlConnection

/-- Which parameterised queries execute their statement at most once, of either connection. -/
theorem queries_atMostOnce_iff {σ τ ε ρ R : Type} (mysql : MysqlServer σ ε ρ) (toResult : ρ → R) (pgsql : Libpq τ)
    (c : MysqlConnection σ ε ρ) (d : PgsqlConnection τ) (sql : Bytes) (params : List Bytes) :
    (AtMostOnce (MysqlConnection.since mysql c ((MysqlConnection.query mysql toResult sql params).exec c).2)
        ((MysqlConnection.query mysql toResult sql params).exec c).1 ↔
      MysqlConnection.Settles mysql c sql params) ∧
    (AtMostOnce (PgsqlConnection.since d ((PgsqlConnection.query pgsql sql params).exec d).2)
        ((PgsqlConnection.query pgsql sql params).exec d).1 ↔
      PgsqlConnection.Settles pgsql d sql params) :=
  ⟨MysqlConnection.atMostOnce_iff toResult sql params, PgsqlConnection.atMostOnce_iff pgsql d sql params⟩

section Applied

/-- A server that counts what it applied, and whose first answer is lost. -/
def losesAnswer : MysqlServer Nat Nat Unit where
  text applied _ := (.ok (), applied)
  prepare applied _ := (.ok (), applied)
  bound applied _ _ := (if applied = 0 then .error 2013 else .ok (), applied + 1)
  close applied _ := (.ok (), applied)
  unknownStatement code := code == 1243

/-- A server whose first execution fails for a deadlock. -/
def deadlocks : Libpq Nat where
  query applied _ := (.ok [{ status := .commandOk }], applied)
  prepare applied _ _ := (.ok [{ status := .commandOk }], applied)
  execute applied _ _ := (.ok [if applied = 0 then { status := .fatalError, sqlState := bytes "40P01" }
    else { status := .commandOk }], applied + 1)

def updateText : Bytes := bytes "UPDATE t SET n = n + 1 WHERE id = ?"

/-- The statement that was applied is applied again, and so is the one that was rolled back. -/
theorem applied_twice :
    ¬AtMostOnce (MysqlConnection.since losesAnswer { server := 0, stmtCache := ⟨64, {}⟩ }
        ((MysqlConnection.query losesAnswer id updateText [bytes "1"]).exec
          { server := 0, stmtCache := ⟨64, {}⟩ }).2)
        ((MysqlConnection.query losesAnswer id updateText [bytes "1"]).exec
          { server := 0, stmtCache := ⟨64, {}⟩ }).1 ∧
    ¬AtMostOnce (PgsqlConnection.since { server := 0, stmtCache := ⟨64, {}⟩ }
        ((PgsqlConnection.query deadlocks updateText [bytes "1"]).exec { server := 0, stmtCache := ⟨64, {}⟩ }).2)
        ((PgsqlConnection.query deadlocks updateText [bytes "1"]).exec
          { server := 0, stmtCache := ⟨64, {}⟩ }).1 := by
  constructor
  · intro h
    have hagain := h.again ⟨some 2013, false⟩ ⟨none, false⟩ [] rfl
    exact absurd hagain.2 (by simp)
  · intro h
    have hagain := h.again ⟨some (.runtimeError (bytes "pgsql error: ")), false⟩ ⟨none, false⟩ [] rfl
    exact absurd hagain.2 (by simp)

end Applied

end Hical.Db
