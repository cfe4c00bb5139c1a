import Mathlib.Data.List.Basic
import Mathlib.Logic.Function.Basic
import Hical.Lib.Runs
import Mathlib.Data.List.Nodup

namespace Hical

abbrev SessionId := String

/-- A session that stores values of one type; the times are those of `steady_clock`. -/
structure Session (V : Type) where
  id : SessionId
  data : String → Option V := fun _ => none
  dirty : Bool := false
  lastAccess : Nat

namespace Session
variable {V : Type}

def set (s : Session V) (key : String) (value : V) : Session V :=
  { s with data := Function.update s.data key (some value), dirty := true }

def get (s : Session V) (key : String) : Option V := s.data key

def remove (s : Session V) (key : String) : Session V :=
  { s with data := Function.update s.data key none }

def clear (s : Session V) : Session V := { s with data := fun _ => none }

def migrateFrom (s other : Session V) : Session V × Session V :=
  ({ s with data := other.data, dirty := true }, { other with data := fun _ => none })

def touch (s : Session V) (now : Nat) : Session V := { s with lastAccess := now }

end Session

structure SessionOptions where
  cookieName : String := "HICAL_SESSION"
  maxAge : Int := 3600
  httpOnly : Bool := true
  secure : Bool := true
  sameSite : String := "Lax"
  path : String := "/"
  gcInterval : Int := 300
  maxSessions : Nat := 100000

/-- `duration_cast` to milliseconds of the time since then. -/
def elapsedMs (now since : Nat) : Int := ((now - since) / 1000000 : Nat)

def kMsPerSecond : Int := 1000

/-- `SessionManager`, with the sessions that were made; the store names them by their number. -/
structure SessionManager (V : Type) where
  opts : SessionOptions := {}
  store : List (SessionId × Nat) := []
  lastGc : Nat := 0
  session : Nat → Session V := fun _ => { id := "", lastAccess := 0 }
  made : Nat := 0

/-- The readings of the clock in `create`. -/
structure CreateClock where
  asked : Nat
  collected : Nat
  forced : Nat
  made : Nat

namespace SessionManager
variable {V : Type}

def expired (m : SessionManager V) (now ref : Nat) : Bool :=
  decide (0 < m.opts.maxAge) &&
    decide (m.opts.maxAge * kMsPerSecond ≤ elapsedMs now (m.session ref).lastAccess)

def find (m : SessionManager V) (now : Nat) (id : SessionId) : Option Nat :=
  match m.store.lookup id with
  | none => none
  | some ref => if m.expired now ref then none else some ref

def gcDue (m : SessionManager V) (now : Nat) : Bool :=
  decide (m.opts.gcInterval * kMsPerSecond ≤ elapsedMs now m.lastGc)

def gc (m : SessionManager V) (now : Nat) (force : Bool) : SessionManager V :=
  if !force && decide (0 < m.opts.gcInterval) && !m.gcDue now then m
  else { m with lastGc := now, store := m.store.filter fun e => !m.expired now e.2 }

/-- The calls of `generateId` until an id is not in use, where the random source gives these ids and
then fails. -/
def freshId (m : SessionManager V) (draws : List SessionId) : Option SessionId :=
  draws.find? fun id => (m.store.lookup id).isNone

def randFailed : String := "SessionManager::generateId: RAND_bytes failed"

def file (m : SessionManager V) (s : Session V) : SessionManager V :=
  { m with
    store := (s.id, m.made) :: m.store
    session := Function.update m.session m.made s
    made := m.made + 1 }

/-- `create` from where there is room. -/
def createNew (m : SessionManager V) (now : Nat) (draws : List SessionId) :
    SessionManager V × Except String (Option Nat) :=
  match m.freshId draws with
  | none => (m, .error randFailed)
  | some id => (m.file { id, lastAccess := now }, .ok (some m.made))

def create (m : SessionManager V) (clock : CreateClock) (draws : List SessionId) :
    SessionManager V × Except String (Option Nat) :=
  let m := if 0 < m.opts.gcInterval ∧ m.gcDue clock.asked then m.gc clock.collected false else m
  if 0 < m.opts.maxSessions ∧ m.opts.maxSessions ≤ m.store.length then
    let m := m.gc clock.forced true
    if m.opts.maxSessions ≤ m.store.length then (m, .ok none) else m.createNew clock.made draws
  else m.createNew clock.made draws

def destroy (m : SessionManager V) (id : SessionId) : SessionManager V :=
  { m with store := m.store.filter fun e => e.1 != id }

def regenerate (m : SessionManager V) (now : Nat) (draws : List SessionId) (oldId : SessionId) :
    SessionManager V × Except String (Option Nat) :=
  match m.store.lookup oldId with
  | none => (m, .ok none)
  | some ref =>
    let m := m.destroy oldId
    match m.freshId draws with
    | none => (m, .error randFailed)
    | some newId =>
      let (newSession, oldSession) :=
        ({ id := newId, lastAccess := now } : Session V).migrateFrom (m.session ref)
      ({ m with session := Function.update m.session ref oldSession }.file newSession,
        .ok (some m.made))

/-- A call on a session that someone holds. -/
def onSession (m : SessionManager V) (ref : Nat) (f : Session V → Session V) : SessionManager V :=
  if ref < m.made then { m with session := Function.update m.session ref (f (m.session ref)) } else m

end SessionManager

namespace SessionManager
variable {V : Type}

/-- The calls on a manager and on the sessions that it gave out, with what the clock and the random
source then say. -/
inductive Op (V : Type) where
  | create (clock : CreateClock) (draws : List SessionId)
  | find (now : Nat) (id : SessionId)
  | touch (now : Nat) (ref : Nat)
  | destroy (id : SessionId)
  | regenerate (now : Nat) (draws : List SessionId) (oldId : SessionId)
  | gc (now : Nat) (force : Bool)
  | set (ref : Nat) (key : String) (value : V)
  | remove (ref : Nat) (key : String)
  | clear (ref : Nat)

def Op.apply (m : SessionManager V) : Op V → SessionManager V
  | .create clock draws => (m.create clock draws).1
  | .find _ _ => m
  | .touch now ref => m.onSession ref fun s => s.touch now
  | .destroy id => m.destroy id
  | .regenerate now draws oldId => (m.regenerate now draws oldId).1
  | .gc now force => m.gc now force
  | .set ref key value => m.onSession ref fun s => s.set key value
  | .remove ref key => m.onSession ref fun s => s.remove key
  | .clear ref => m.onSession ref Session.clear

def Op.readings : Op V → List Nat
  | .create clock _ => [clock.asked, clock.collected, clock.forced, clock.made]
  | .find now _ => [now]
  | .touch now _ => [now]
  | .regenerate now _ _ => [now]
  | .gc now _ => [now]
  | _ => []

def Op.draws : Op V → List SessionId
  | .create _ draws => draws
  | .regenerate _ draws _ => draws
  | _ => []

def Op.makes (m : SessionManager V) : Op V → Option SessionId
  | .create clock draws =>
    match m.create clock draws with
    | (m', .ok (some ref)) => some (m'.session ref).id
    | _ => none
  | .regenerate now draws oldId =>
    match m.regenerate now draws oldId with
    | (m', .ok (some ref)) => some (m'.session ref).id
    | _ => none
  | _ => none

/-- The ids by which a call gets at a session. -/
def Op.yields (m : SessionManager V) : Op V → List SessionId
  | .create clock draws => (Op.makes m (.create clock draws)).toList
  | .find now id => if (m.find now id).isSome then [id] else []
  | .regenerate now draws oldId =>
    match Op.makes m (.regenerate now draws oldId) with
    | some newId => [oldId, newId]
    | none => []
  | _ => []

/-- The ids that a call takes out of the store on purpose. -/
def Op.drops (m : SessionManager V) : Op V → List SessionId
  | .destroy id => if (m.store.lookup id).isSome then [id] else []
  | .regenerate _ _ oldId => if (m.store.lookup oldId).isSome then [oldId] else []
  | _ => []

/-- A manager at a reading of the clock, with the ids that were given out and those that were
destroyed, regenerated away or had expired at a reading. -/
structure History (V : Type) where
  manager : SessionManager V
  now : Nat
  issued : List SessionId := []
  gone : List SessionId := []

namespace History

def time (h : History V) (op : Op V) : Nat := op.readings.getLastD h.now

def expiredIds (m : SessionManager V) (now : Nat) : List SessionId :=
  (m.store.filter fun e => m.expired now e.2).map Prod.fst

def goneBy (h : History V) (now : Nat) : List SessionId := expiredIds h.manager now ++ h.gone

def step (h : History V) (op : Op V) : History V where
  manager := op.apply h.manager
  now := h.time op
  issued := (op.makes h.manager).toList ++ h.issued
  gone := op.drops h.manager ++ h.goneBy (h.time op)

def run (h : History V) (ops : List (Op V)) : History V := ops.foldl step h

/-- The clock does not go back. -/
def Timely (h : History V) (op : Op V) : Prop := (h.now :: op.readings).IsChain (· ≤ ·)

/-- The random source gives no id that was given out before. -/
def Fresh (h : History V) (op : Op V) : Prop := ∀ id ∈ op.draws, id ∉ h.issued

/-- Sessions are filed under their own ids, which differ, not too many of them, and what is gone is
not found any more. -/
structure Kept (h : History V) : Prop where
  filed : ∀ e ∈ h.manager.store, (h.manager.session e.2).id = e.1
  unique : (h.manager.store.map Prod.fst).Nodup
  bounded : 0 < h.manager.opts.maxSessions → h.manager.store.length ≤ h.manager.opts.maxSessions
  unreachable : ∀ id ∈ h.gone, ∀ t, h.now ≤ t → h.manager.find t id = none

/-- A call gets at no session by an id that is gone. -/
def Sound (h : History V) (op : Op V) : Prop :=
  ∀ id ∈ op.yields h.manager, id ∉ h.goneBy (h.time op)

/-- No session that is filed but has expired is touched, or regenerated with success. -/
def InTime (h : History V) : Op V → Prop
  | .touch now ref => ∀ e ∈ h.manager.store, e.2 = ref → h.manager.expired now ref = false
  | .regenerate now draws oldId =>
    draws = [] ∨ ∀ ref, h.manager.store.lookup oldId = some ref → h.manager.expired now ref = false
  | _ => True

end History

theorem lookup_iff {l : List (SessionId × Nat)} {id : SessionId} {ref : Nat} (hn : (l.map Prod.fst).Nodup) :
    l.lookup id = some ref ↔ (id, ref) ∈ l := by
  rw [List.lookup_eq_some_iff]
  constructor
  · rintro ⟨l₁, l₂, rfl, -⟩
    exact List.mem_append_right _ (List.mem_cons_self ..)
  · intro hm
    obtain ⟨l₁, l₂, rfl⟩ := List.append_of_mem hm
    refine ⟨l₁, l₂, rfl, fun p hp => ?_⟩
    rw [List.map_append, List.nodup_append] at hn
    simpa using hn.2.2 p.1 (List.mem_map_of_mem hp) id (List.mem_cons_self ..) ∘ Eq.symm

theorem isSome_lookup {l : List (SessionId × Nat)} {id : SessionId} :
    (l.lookup id).isSome = true ↔ id ∈ l.map Prod.fst := by
  rw [← not_iff_not, Bool.not_eq_true, Option.isSome_eq_false_iff, Option.isNone_iff_eq_none,
    List.lookup_eq_none_iff]
  constructor
  · intro h hin
    obtain ⟨e, he, rfl⟩ := List.mem_map.1 hin
    simpa using h e he
  · intro h e he
    exact bne_iff_ne.2 fun heq => h (List.mem_map.2 ⟨e, he, heq.symm⟩)

section Managers
variable {m m' : SessionManager V} {now t ref : Nat} {id : SessionId} {draws : List SessionId}

/-- What has expired stays expired, as long as it is not touched. -/
theorem expired_mono (h : m.expired now ref = true) (hle : now ≤ t) : m.expired t ref = true := by
  rw [expired, Bool.and_eq_true, decide_eq_true_eq, decide_eq_true_eq] at h ⊢
  refine ⟨h.1, Int.le_trans h.2 (Int.ofNat_le.2 ?_)⟩
  exact Nat.div_le_div_right (Nat.sub_le_sub_right hle _)

theorem expired_congr {r : Nat} (ho : m'.opts = m.opts)
    (hl : (m'.session r).lastAccess = (m.session ref).lastAccess) :
    m'.expired now r = m.expired now ref := by
  rw [expired, expired, ho, hl]

theorem not_expired_now (hs : (m.session ref).lastAccess = now) : m.expired now ref = false := by
  rw [expired, hs, elapsedMs, Nat.sub_self, Nat.zero_div, Bool.and_eq_false_iff]
  by_cases hage : 0 < m.opts.maxAge
  · refine .inr (decide_eq_false ?_)
    simp only [kMsPerSecond, Int.ofNat_zero]
    omega
  · exact .inl (decide_eq_false hage)

/-- Some sessions were taken out of the store, and nothing else changed but when that was done. -/
structure Shrunk (m m' : SessionManager V) : Prop where
  opts : m'.opts = m.opts
  session : m'.session = m.session
  made : m'.made = m.made
  store : m'.store.Sublist m.store

theorem Shrunk.refl (m : SessionManager V) : Shrunk m m := ⟨rfl, rfl, rfl, .refl _⟩

theorem Shrunk.trans (h : Shrunk m m') (h' : Shrunk m' m'') : Shrunk m m'' :=
  ⟨h'.opts.trans h.opts, h'.session.trans h.session, h'.made.trans h.made, h'.store.trans h.store⟩

theorem Shrunk.expired (h : Shrunk m m') (now ref : Nat) : m'.expired now ref = m.expired now ref :=
  expired_congr h.opts (by rw [h.session])

theorem shrunk_gc (m : SessionManager V) (now : Nat) (force : Bool) : Shrunk m (m.gc now force) := by
  rw [gc]
  split
  · exact .refl m
  · exact ⟨rfl, rfl, rfl, List.filter_sublist⟩

theorem shrunk_destroy (m : SessionManager V) (id : SessionId) : Shrunk m (m.destroy id) :=
  ⟨rfl, rfl, rfl, List.filter_sublist⟩

theorem createNew_cases (m : SessionManager V) (now : Nat) (draws : List SessionId) :
    (m.createNew now draws = (m, .error randFailed) ∧ m.freshId draws = none) ∨
      ∃ id, m.freshId draws = some id ∧
        m.createNew now draws = (m.file { id, lastAccess := now }, .ok (some m.made)) := by
  rw [createNew]
  cases m.freshId draws with
  | none => exact .inl ⟨rfl, rfl⟩
  | some id => exact .inr ⟨id, rfl, rfl⟩

/-- A session is made only where there is room for it, and collections are all that happens else. -/
theorem create_cases (m : SessionManager V) (clock : CreateClock) (draws : List SessionId) :
    ∃ m₁, Shrunk m m₁ ∧
      ((m.create clock draws = (m₁, .ok none) ∨ m.create clock draws = (m₁, .error randFailed)) ∨
        ∃ id, m₁.freshId draws = some id ∧
          m.create clock draws = (m₁.file { id, lastAccess := clock.made }, .ok (some m₁.made)) ∧
          (0 < m.opts.maxSessions → m₁.store.length < m.opts.maxSessions)) := by
  rw [create]
  generalize hm₁ : (if 0 < m.opts.gcInterval ∧ m.gcDue clock.asked then m.gc clock.collected false else m) = m₁
  have hs : Shrunk m m₁ := by
    rw [← hm₁]
    split
    · exact shrunk_gc m clock.collected false
    · exact .refl m
  have made : ∀ m₂, Shrunk m m₂ → (0 < m.opts.maxSessions → m₂.store.length < m.opts.maxSessions) →
      ∃ m₃, Shrunk m m₃ ∧
        ((m₂.createNew clock.made draws = (m₃, .ok none) ∨
            m₂.createNew clock.made draws = (m₃, .error randFailed)) ∨
          ∃ id, m₃.freshId draws = some id ∧
            m₂.createNew clock.made draws =
              (m₃.file { id, lastAccess := clock.made }, .ok (some m₃.made)) ∧
            (0 < m.opts.maxSessions → m₃.store.length < m.opts.maxSessions)) := by
    intro m₂ hs₂ hroom
    refine ⟨m₂, hs₂, ?_⟩
    rcases createNew_cases m₂ clock.made draws with ⟨h, -⟩ | ⟨id, hid, h⟩
    · exact .inl (.inr h)
    · exact .inr ⟨id, hid, h, hroom⟩
  dsimp only
  split
  · have hs₂ := hs.trans (shrunk_gc m₁ clock.forced true)
    split
    · exact ⟨_, hs₂, .inl (.inl rfl)⟩
    · next hroom =>
      refine made _ hs₂ fun _ => ?_
      rw [hs₂.opts] at hroom
      exact Nat.lt_of_not_le hroom
  · next hroom =>
    refine made m₁ hs fun hmax => ?_
    rw [hs.opts] at hroom
    exact Nat.lt_of_not_le fun hle => hroom ⟨hmax, hle⟩

theorem session_file (m : SessionManager V) (s : Session V) : (m.file s).session m.made = s :=
  Function.update_self ..

theorem regenerate_none (now : Nat) (draws : List SessionId) (h : m.store.lookup id = none) :
    m.regenerate now draws id = (m, .ok none) := by
  rw [regenerate, h]

theorem regenerate_some (now : Nat) (draws : List SessionId) (h : m.store.lookup id = some ref) :
    m.regenerate now draws id = match (m.destroy id).freshId draws with
      | none => (m.destroy id, .error randFailed)
      | some newId =>
        ({ m.destroy id with
            session := Function.update m.session ref (m.session ref).clear }.file
          { id := newId, data := (m.session ref).data, dirty := true, lastAccess := now },
          .ok (some m.made)) := by
  rw [regenerate, h]
  dsimp only
  cases (m.destroy id).freshId draws with
  | none => rfl
  | some newId => rfl

end Managers

namespace History

/-- What holds of a manager with the ids that were given out and those that are gone. -/
structure Ok (m : SessionManager V) (now : Nat) (issued gone : List SessionId) : Prop where
  filed : ∀ e ∈ m.store, (m.session e.2).id = e.1
  made : ∀ e ∈ m.store, e.2 < m.made
  unique : (m.store.map Prod.fst).Nodup
  bounded : 0 < m.opts.maxSessions → m.store.length ≤ m.opts.maxSessions
  stored : ∀ e ∈ m.store, e.1 ∈ issued
  past : ∀ id ∈ gone, id ∈ issued
  dead : ∀ e ∈ m.store, e.1 ∈ gone → m.expired now e.2 = true

section Ok
variable {m m' : SessionManager V} {now t ref : Nat} {id : SessionId} {issued gone : List SessionId}

theorem Ok.shrink (h : Ok m now issued gone) (hs : Shrunk m m') : Ok m' now issued gone := by
  have hmem : ∀ e ∈ m'.store, e ∈ m.store := fun e he => hs.store.subset he
  refine ⟨fun e he => ?_, fun e he => ?_, h.unique.sublist (hs.store.map _), fun hmax => ?_,
    fun e he => h.stored e (hmem e he), h.past, fun e he hg => ?_⟩
  · rw [hs.session]
    exact h.filed e (hmem e he)
  · rw [hs.made]
    exact h.made e (hmem e he)
  · rw [hs.opts] at hmax ⊢
    exact Nat.le_trans hs.store.length_le (h.bounded hmax)
  · rw [hs.expired]
    exact h.dead e (hmem e he) hg

theorem Ok.lookup (h : Ok m now issued gone) : m.store.lookup id = some ref ↔ (id, ref) ∈ m.store :=
  lookup_iff h.unique

theorem mem_expiredIds (h : Ok m now issued gone) (he : e ∈ m.store) :
    e.1 ∈ expiredIds m t ↔ m.expired t e.2 = true := by
  constructor
  · intro hin
    obtain ⟨e', he', hid⟩ := List.mem_map.1 hin
    obtain ⟨hm, hx⟩ := List.mem_filter.1 he'
    have hsame : e' = e := List.inj_on_of_nodup_map h.unique hm he hid
    exact hsame ▸ hx
  · intro hx
    exact List.mem_map_of_mem (List.mem_filter.2 ⟨he, hx⟩)

theorem Ok.later (h : Ok m now issued gone) (hle : now ≤ t) :
    Ok m t issued (expiredIds m t ++ gone) := by
  refine { h with past := fun id hid => ?_, dead := fun e he hg => ?_ }
  · rcases List.mem_append.1 hid with hid | hid
    · obtain ⟨e, he, rfl⟩ := List.mem_map.1 hid
      exact h.stored e (List.mem_filter.1 he).1
    · exact h.past id hid
  · rcases List.mem_append.1 hg with hg | hg
    · exact (mem_expiredIds h he).1 hg
    · exact expired_mono (h.dead e he hg) hle

theorem Ok.file (h : Ok m now issued gone) (s : Session V) (hs : s.id ∉ issued)
    (hroom : 0 < m.opts.maxSessions → m.store.length < m.opts.maxSessions) :
    Ok (m.file s) now (s.id :: issued) gone := by
  have hother : ∀ e ∈ m.store, (m.file s).session e.2 = m.session e.2 :=
    fun e he => Function.update_of_ne (Nat.ne_of_lt (h.made e he)) ..
  refine ⟨fun e he => ?_, fun e he => ?_, ?_, hroom, fun e he => ?_,
    fun id hid => List.mem_cons_of_mem _ (h.past id hid), fun e he hg => ?_⟩
  · rcases List.mem_cons.1 he with rfl | he
    · exact congrArg Session.id (Function.update_self ..)
    · rw [hother e he]
      exact h.filed e he
  · rcases List.mem_cons.1 he with rfl | he
    · exact Nat.lt_succ_self _
    · exact Nat.lt_succ_of_lt (h.made e he)
  · refine List.nodup_cons.2 ⟨fun hin => hs ?_, h.unique⟩
    obtain ⟨e, he, hid⟩ := List.mem_map.1 hin
    have hid : e.1 = s.id := hid
    exact hid ▸ h.stored e he
  · rcases List.mem_cons.1 he with rfl | he
    · exact List.mem_cons_self ..
    · exact List.mem_cons_of_mem _ (h.stored e he)
  · rcases List.mem_cons.1 he with rfl | he
    · exact absurd (h.past _ hg) hs
    · rw [← h.dead e he hg]
      exact expired_congr rfl (by rw [hother e he])

theorem Ok.update (h : Ok m now issued gone) (ref : Nat) (s : Session V) (hid : s.id = (m.session ref).id)
    (hlast : s.lastAccess = (m.session ref).lastAccess ∨
      ∀ e ∈ m.store, e.2 = ref → e.1 ∉ gone) :
    Ok { m with session := Function.update m.session ref s } now issued gone := by
  have hself : ∀ e : SessionId × Nat, e.2 = ref → Function.update m.session ref s e.2 = s := by
    intro e hr
    rw [hr, Function.update_self]
  have hother : ∀ e : SessionId × Nat, e.2 ≠ ref →
      Function.update m.session ref s e.2 = m.session e.2 :=
    fun e hr => Function.update_of_ne hr ..
  refine { h with filed := fun e he => ?_, dead := fun e he hg => ?_ }
  · show (Function.update m.session ref s e.2).id = e.1
    by_cases hr : e.2 = ref
    · rw [hself e hr, hid, ← hr]
      exact h.filed e he
    · rw [hother e hr]
      exact h.filed e he
  · rw [← h.dead e he hg]
    refine expired_congr rfl ?_
    show (Function.update m.session ref s e.2).lastAccess = (m.session e.2).lastAccess
    by_cases hr : e.2 = ref
    · rcases hlast with hlast | hlast
      · rw [hself e hr, hlast, hr]
      · exact absurd hg (hlast e he hr)
    · rw [hother e hr]

theorem Ok.onSession (h : Ok m now issued gone) (f : Session V → Session V)
    (hid : (f (m.session ref)).id = (m.session ref).id)
    (hlast : (f (m.session ref)).lastAccess = (m.session ref).lastAccess ∨
      ∀ e ∈ m.store, e.2 = ref → e.1 ∉ gone) : Ok (m.onSession ref f) now issued gone := by
  rw [SessionManager.onSession]
  split
  · exact h.update ref _ hid hlast
  · exact h

theorem Ok.destroy (h : Ok m now issued gone) (id : SessionId) (hid : id ∈ issued) :
    Ok (m.destroy id) now issued (id :: gone) := by
  have hs := h.shrink (shrunk_destroy m id)
  refine { hs with past := fun i hi => ?_, dead := fun e he hg => ?_ }
  · rcases List.mem_cons.1 hi with rfl | hi
    · exact hid
    · exact h.past i hi
  · rcases List.mem_cons.1 hg with heq | hg
    · have hne := (List.mem_filter.1 he).2
      rw [heq] at hne
      simp at hne
    · exact hs.dead e he hg

theorem Ok.freshId (h : Ok m now issued gone) (hfresh : ∀ id ∈ draws, id ∉ issued)
    (hd : draws ≠ []) : ∃ id ∈ draws, m.freshId draws = some id := by
  cases draws with
  | nil => exact absurd rfl hd
  | cons id draws =>
    refine ⟨id, List.mem_cons_self .., ?_⟩
    have hnone : m.store.lookup id = none := by
      rw [← Option.isNone_iff_eq_none, ← Option.isSome_eq_false_iff, ← Bool.not_eq_true, isSome_lookup]
      intro hin
      obtain ⟨e, he, heq⟩ := List.mem_map.1 hin
      exact hfresh id (List.mem_cons_self ..) (heq ▸ h.stored e he)
    rw [SessionManager.freshId, List.find?_cons_of_pos]
    rw [hnone]
    rfl

theorem mem_draws (h : m.freshId draws = some id) : id ∈ draws := List.mem_of_find?_eq_some h

end Ok

section Steps
variable {h : History V} {op : Op V} {now ref : Nat} {id : SessionId} {draws : List SessionId}

def Good (h : History V) : Prop := Ok h.manager h.now h.issued h.gone

theorem Timely.le (ht : h.Timely op) : h.now ≤ h.time op := by
  rw [Timely] at ht
  rw [time]
  cases op with
  | create clock draws =>
    simp only [Op.readings, List.isChain_cons_cons] at ht
    simp only [Op.readings, List.getLastD_cons, List.getLastD_nil]
    omega
  | find now id | touch now ref | regenerate now draws oldId | gc now force =>
    exact (List.isChain_cons_cons.1 ht).1
  | destroy id | set ref key value | remove ref key | clear ref => exact Nat.le_refl _

theorem Good.goneBy (hg : h.Good) (ht : h.Timely op) :
    Ok h.manager (h.time op) h.issued (h.goneBy (h.time op)) :=
  hg.later ht.le

theorem good_create (hg : h.Good) (clock : CreateClock) (draws : List SessionId)
    (ht : h.Timely (.create clock draws)) (hf : h.Fresh (.create clock draws)) :
    (h.step (.create clock draws)).Good ∧
      ∀ id ∈ Op.makes h.manager (.create clock draws), id ∉ h.issued := by
  have hok := hg.goneBy ht
  obtain ⟨m₁, hs, hc⟩ := create_cases h.manager clock draws
  have hok₁ := hok.shrink hs
  rcases hc with hnone | ⟨id, hid, hc, hroom⟩
  · have hmakes : Op.makes h.manager (.create clock draws) = none := by
      rcases hnone with hc | hc
      · rw [Op.makes, hc]
      · rw [Op.makes, hc]
    have hstate : (h.manager.create clock draws).1 = m₁ := by
      rcases hnone with hc | hc
      · rw [hc]
      · rw [hc]
    rw [Good, step, hmakes]
    refine ⟨?_, fun id hid => (nomatch hid)⟩
    dsimp only [Op.apply]
    rw [hstate]
    exact hok₁
  · have hnew : id ∉ h.issued := hf id (mem_draws hid)
    have hmakes : Op.makes h.manager (.create clock draws) = some id := by
      rw [Op.makes, hc]
      dsimp only
      rw [session_file]
    rw [Good, step, hmakes]
    refine ⟨?_, fun i hi => by cases hi; exact hnew⟩
    dsimp only [Op.apply]
    rw [hc]
    exact hok₁.file { id, lastAccess := clock.made } hnew (hs.opts ▸ hroom)

/-- What a call of `regenerate` makes and leaves; of an id that is not filed it leaves all as it is. -/
theorem good_regenerate (hg : h.Good) (now : Nat) (draws : List SessionId) (oldId : SessionId)
    (ht : h.Timely (.regenerate now draws oldId)) (hf : h.Fresh (.regenerate now draws oldId)) :
    (h.step (.regenerate now draws oldId)).Good ∧
      ∀ id ∈ Op.makes h.manager (.regenerate now draws oldId),
        id ∉ h.issued ∧ draws ≠ [] ∧ ∃ ref, h.manager.store.lookup oldId = some ref := by
  have hok : Ok h.manager now h.issued (h.goneBy now) := hg.goneBy ht
  cases hl : h.manager.store.lookup oldId with
  | none =>
    have hr := regenerate_none now draws hl
    have hmakes : Op.makes h.manager (.regenerate now draws oldId) = none := by rw [Op.makes, hr]
    rw [Good, step, hmakes]
    refine ⟨?_, fun id hid => (nomatch hid)⟩
    dsimp only [Op.apply, Op.drops]
    rw [hr, hl]
    exact hok
  | some ref =>
    have hold : oldId ∈ h.issued := hg.stored _ (hg.lookup.1 hl)
    have hok₁ := hok.destroy oldId hold
    have hr := regenerate_some now draws hl
    cases hd : (h.manager.destroy oldId).freshId draws with
    | none =>
      rw [hd] at hr
      have hmakes : Op.makes h.manager (.regenerate now draws oldId) = none := by rw [Op.makes, hr]
      rw [Good, step, hmakes]
      refine ⟨?_, fun id hid => (nomatch hid)⟩
      dsimp only [Op.apply, Op.drops]
      rw [hr, hl]
      exact hok₁
    | some newId =>
      rw [hd] at hr
      have hnew : newId ∉ h.issued := hf newId (mem_draws hd)
      have hmakes : Op.makes h.manager (.regenerate now draws oldId) = some newId := by
        rw [Op.makes, hr]
        exact congrArg (fun s => some (Session.id s)) (session_file ..)
      rw [Good, step, hmakes]
      refine ⟨?_, fun i hi => ?_⟩
      · dsimp only [Op.apply, Op.drops]
        rw [hr, hl]
        refine (hok₁.update ref (h.manager.session ref).clear rfl (.inl rfl)).file
          { id := newId, data := (h.manager.session ref).data, dirty := true, lastAccess := now }
          hnew fun hmax => ?_
        have hlt : (h.manager.destroy oldId).store.length < h.manager.store.length :=
          List.length_filter_lt_length_iff_exists.2 ⟨(oldId, ref), hg.lookup.1 hl, by simp⟩
        exact Nat.lt_of_lt_of_le hlt (hg.bounded hmax)
      · cases hi
        refine ⟨hnew, fun hnil => ?_, ref, rfl⟩
        rw [hnil] at hd
        cases hd

theorem Good.step (hg : h.Good) (ht : h.Timely op) (hf : h.Fresh op) (hi : h.InTime op) :
    (h.step op).Good := by
  have hok := hg.goneBy ht
  cases op with
  | create clock draws => exact (good_create hg clock draws ht hf).1
  | regenerate now draws oldId => exact (good_regenerate hg now draws oldId ht hf).1
  | find now id => exact hok
  | touch now ref =>
    refine hok.onSession (fun s => s.touch now) rfl (.inr fun e he hr hgone => ?_)
    have hx : h.manager.expired now e.2 = true := hok.dead e he hgone
    rw [hr, hi e he hr] at hx
    cases hx
  | destroy id =>
    rw [Good, History.step]
    dsimp only [Op.apply, Op.drops, Op.makes]
    split
    · next hin =>
      refine hok.destroy id ?_
      obtain ⟨e, he, rfl⟩ := List.mem_map.1 (isSome_lookup.1 hin)
      exact hg.stored e he
    · exact hok.shrink (shrunk_destroy h.manager id)
  | gc now force => exact hok.shrink (shrunk_gc h.manager now force)
  | set ref key value => exact hok.onSession (fun s => s.set key value) rfl (.inl rfl)
  | remove ref key => exact hok.onSession (fun s => s.remove key) rfl (.inl rfl)
  | clear ref => exact hok.onSession Session.clear rfl (.inl rfl)

theorem Good.kept (hg : h.Good) : h.Kept := by
  refine ⟨hg.filed, hg.unique, hg.bounded, fun id hid t ht => ?_⟩
  rw [find]
  cases hl : h.manager.store.lookup id with
  | none => rfl
  | some ref =>
    have hx := expired_mono (hg.dead (id, ref) (hg.lookup.1 hl) hid) ht
    dsimp only at hx ⊢
    rw [hx, if_pos rfl]

theorem Good.sound (hg : h.Good) (ht : h.Timely op) (hf : h.Fresh op) (hi : h.InTime op) :
    h.Sound op := by
  have hok := hg.goneBy ht
  have hpast : ∀ id, id ∉ h.issued → id ∉ h.goneBy (h.time op) := fun id hid hin => hid (hok.past id hin)
  intro id hid
  cases op with
  | create clock draws =>
    rw [Op.yields, Option.mem_toList] at hid
    exact hpast id ((good_create hg clock draws ht hf).2 id hid)
  | find now id' =>
    rw [Op.yields] at hid
    split at hid
    · next hsome =>
      rw [List.mem_singleton.1 hid]
      intro hin
      have hnone := (Good.kept (h := h.step (.find now id')) hok).unreachable id' hin now (Nat.le_refl _)
      rw [show h.manager.find now id' = none from hnone] at hsome
      cases hsome
    · cases hid
  | regenerate now draws oldId =>
    have hmade := (good_regenerate hg now draws oldId ht hf).2
    rw [Op.yields] at hid
    cases hm : Op.makes h.manager (.regenerate now draws oldId) with
    | none =>
      rw [hm] at hid
      cases hid
    | some newId =>
      obtain ⟨hnew, hdraws, ref, hl⟩ := hmade newId hm
      rw [hm] at hid
      rcases List.mem_pair.1 hid with rfl | rfl
      · intro hin
        have hx : h.manager.expired now ref = true := hok.dead (id, ref) (hg.lookup.1 hl) hin
        rw [hi.resolve_left hdraws ref hl] at hx
        cases hx
      · exact hpast id hnew
  | touch now ref | destroy id' | gc now force | set ref key value | remove ref key | clear ref => cases hid

theorem Good.inTime (hg : h.Good) (ht : h.Timely op) (hf : h.Fresh op) (hk : (h.step op).Kept)
    (hs : h.Sound op) : h.InTime op := by
  cases op with
  | touch now ref =>
    intro e he hr
    by_contra hx
    rw [Bool.not_eq_false] at hx
    have hin : e.1 ∈ (h.step (.touch now ref)).gone :=
      List.mem_append_right _ (List.mem_append_left _ ((mem_expiredIds hg he).2 (by rw [hr]; exact hx)))
    have hnone := hk.unreachable e.1 hin now (Nat.le_refl _)
    have hstore : (h.step (.touch now ref)).manager =
        { h.manager with
          session := Function.update h.manager.session ref ((h.manager.session ref).touch now) } :=
      if_pos (hr ▸ hg.made e he)
    rw [hstore, find] at hnone
    dsimp only at hnone
    rw [hg.lookup.2 (show (e.1, ref) ∈ h.manager.store from hr ▸ he)] at hnone
    dsimp only at hnone
    rw [not_expired_now] at hnone
    · cases hnone
    · dsimp only
      rw [Function.update_self]
      rfl
  | regenerate now draws oldId =>
    by_cases hd : draws = []
    · exact .inl hd
    refine .inr fun ref hl => ?_
    by_contra hx
    rw [Bool.not_eq_false] at hx
    have hok : Ok h.manager now h.issued (h.goneBy now) := hg.goneBy ht
    have hfresh : ∀ newId ∈ draws, newId ∉ h.issued := hf
    obtain ⟨newId, -, hnew⟩ := (hok.destroy oldId (hg.stored _ (hg.lookup.1 hl))).freshId hfresh hd
    have hr := regenerate_some now draws hl
    rw [hnew] at hr
    have hyields : oldId ∈ Op.yields h.manager (.regenerate now draws oldId) := by
      rw [Op.yields, Op.makes, hr]
      exact List.mem_cons_self ..
    exact hs oldId hyields (List.mem_append_left _ ((mem_expiredIds hg (hg.lookup.1 hl)).2 hx))
  | create clock draws | find now id | destroy id | gc now force | set ref key value
  | remove ref key | clear ref => trivial

end Steps

def start (opts : SessionOptions) (now : Nat) : History V := { manager := { opts, lastGc := now }, now }

theorem ok_start (opts : SessionOptions) (made now : Nat) :
    Ok ({ opts, lastGc := made } : SessionManager V) now [] [] where
  filed _ he := nomatch he
  made _ he := nomatch he
  unique := List.nodup_nil
  bounded _ := Nat.zero_le _
  stored _ he := nomatch he
  past _ hid := nomatch hid
  dead _ he := nomatch he

theorem good_start (opts : SessionOptions) (now : Nat) : (start (V := V) opts now).Good := ok_start opts now now

theorem run_take_succ (h : History V) (ops : List (Op V)) (hn : ops[n]? = some op) :
    h.run (ops.take (n + 1)) = (h.run (ops.take n)).step op :=
  Runs.take_succ step h ops hn

/-- Over every run from a new manager, the store stays in order and no call gets at a session by an id
that is gone, exactly as long as no session that has expired is touched or regenerated. -/
theorem sound_iff (opts : SessionOptions) (now : Nat) (ops : List (Op V))
    (ht : ∀ n op, ops[n]? = some op → ((start opts now).run (ops.take n)).Timely op)
    (hf : ∀ n op, ops[n]? = some op → ((start opts now).run (ops.take n)).Fresh op) :
    (∀ n, ((start opts now).run (ops.take n)).Kept ∧
        ∀ op, ops[n]? = some op → ((start opts now).run (ops.take n)).Sound op) ↔
      ∀ n op, ops[n]? = some op → ((start opts now).run (ops.take n)).InTime op := by
  constructor
  · intro hall
    have late : ∀ n op, ops[n]? = some op → ((start opts now).run (ops.take n)).Good →
        ((start opts now).run (ops.take n)).InTime op := by
      intro n op hn hg
      have hk := (hall (n + 1)).1
      rw [run_take_succ _ ops hn] at hk
      exact hg.inTime (ht n op hn) (hf n op hn) hk ((hall n).2 op hn)
    have hgood := Runs.invariant step (start opts now) ops (good_start opts now) fun n op hn hg =>
      hg.step (ht n op hn) (hf n op hn) (late n op hn hg)
    intro n op hn
    exact late n op hn (hgood n)
  · intro hi
    have hgood := Runs.invariant step (start opts now) ops (good_start opts now) fun n op hn hg =>
      hg.step (ht n op hn) (hf n op hn) (hi n op hn)
    intro n
    refine ⟨(hgood n).kept, fun op hn => ?_⟩
    exact (hgood n).sound (ht n op hn) (hf n op hn) (hi n op hn)

/-- A session that is renamed in time. -/
theorem sound_iff_renamed :
    let ops : List (Op Nat) := [.create ⟨0, 0, 0, 0⟩ ["a"], .find 5 "a", .touch 5 0, .regenerate 6 ["b"] "a"]
    ∀ n, ((start {} 0).run (ops.take n)).Kept ∧
      ∀ op, ops[n]? = some op → ((start {} 0).run (ops.take n)).Sound op := by
  intro ops
  refine (sound_iff {} 0 ops ?_ ?_).2 ?_
  · intro n op hn
    match n with
    | 0 => cases hn; exact .cons_cons (by decide) (by decide)
    | 1 => cases hn; exact .cons_cons (by decide) (by decide)
    | 2 => cases hn; exact .cons_cons (by decide) (by decide)
    | 3 => cases hn; exact .cons_cons (by decide) (by decide)
    | n + 4 => cases hn
  · intro n op hn
    match n with
    | 0 => cases hn; exact fun id _ => List.not_mem_nil
    | 1 => cases hn; exact fun id hid => nomatch hid
    | 2 => cases hn; exact fun id hid => nomatch hid
    | 3 => cases hn; unfold Fresh; decide
    | n + 4 => cases hn
  · intro n op hn
    match n with
    | 0 => cases hn; trivial
    | 1 => cases hn; trivial
    | 2 => cases hn; unfold InTime; decide
    | 3 =>
      cases hn
      refine .inr fun ref hl => ?_
      have hr : some 0 = some ref := hl
      cases hr
      decide
    | n + 4 => cases hn

/-- A session that expired is not found any more but comes back under another id. -/
theorem late_regenerate :
    let ops : List (Op Nat) := [.create ⟨0, 0, 0, 0⟩ ["a"], .set 0 "user" 7, .regenerate 1000000000 ["b"] "a"]
    let h := (start { maxAge := 1 } 0).run (ops.take 2)
    (∀ n op, ops[n]? = some op →
      ((start { maxAge := 1 } 0).run (ops.take n)).Timely op ∧
        ((start { maxAge := 1 } 0).run (ops.take n)).Fresh op) ∧
      ¬ h.Sound (.regenerate 1000000000 ["b"] "a") ∧
      h.manager.find 1000000000 "a" = none ∧
      ((start { maxAge := 1 } 0).run ops).manager.find 1000000000 "b" = some 1 ∧
      (((start { maxAge := 1 } 0).run ops).manager.session 1).get "user" = some 7 := by
  intro ops h
  refine ⟨fun n op hn => ?_, fun hs => ?_, by decide, by decide, by decide⟩
  · match n with
    | 0 => cases hn; exact ⟨.cons_cons (by decide) (by decide), fun id _ => List.not_mem_nil⟩
    | 1 => cases hn; exact ⟨.singleton _, fun id hid => nomatch hid⟩
    | 2 => cases hn; exact ⟨.cons_cons (by decide) (by decide), by unfold Fresh; decide⟩
    | n + 3 => cases hn
  · exact hs "a" (by decide) (by decide)

end History

end SessionManager

end Hical
