import Hical.SessionStore.Middleware
import Hical.SessionStore.Calls

namespace Hical

/-- What a handler's calls mean for the data of a session that has only that; writes to a destroyed
session are lost. -/
structure Visit (V : Type) where
  data : String → Option V
  destroyed : Bool := false

namespace Visit
variable {V : Type}

def act (v : Visit V) : SessionAction V → Visit V
  | .set key value => if v.destroyed then v else { v with data := Function.update v.data key (some value) }
  | .remove key => if v.destroyed then v else { v with data := Function.update v.data key none }
  | .clear => if v.destroyed then v else { v with data := fun _ => none }
  | .regenerate _ _ => v
  | .destroy => { data := fun _ => none, destroyed := true }

/-- The data that a handler leaves of what it saw. -/
def leave (data : String → Option V) (actions : List (SessionAction V)) : String → Option V :=
  (actions.foldl act { data }).data

end Visit

def SessionAction.isRegenerate : SessionAction V → Bool
  | .regenerate _ _ => true
  | _ => false

def SessionAction.isDestroy : SessionAction V → Bool
  | .destroy => true
  | _ => false

/-- A handler that ends with a session under another id. -/
def renames (actions : List (SessionAction V)) : Bool :=
  actions.any SessionAction.isRegenerate && !actions.any SessionAction.isDestroy

/-- Requests of one client, and what others do with the manager in between. -/
inductive ClientEvent (V : Type) where
  | request (clock : SessionClock) (draws : List (Vector UInt8 16)) (actions : List (SessionAction V))
  | other (op : SessionManager.Op V)

/-- The readings at which a session is looked up or collected. -/
def ClientEvent.readings : ClientEvent V → List Nat
  | .request clock _ _ => [clock.find]
  | .other op => op.readings

def SessionAction.draws : SessionAction V → List SessionId
  | .regenerate _ draws => draws.map generateId
  | _ => []

def FreshIn (h : Handling V) : List (SessionAction V) → Prop
  | [] => True
  | action :: actions =>
    (∀ id ∈ action.draws, ¬ Issued h.manager id) ∧ FreshIn (h.act action) actions

def retires (h : Handling V) : List (SessionAction V) → List SessionId
  | [] => []
  | action :: actions =>
    (if action.isRegenerate && (h.act action).session.id != h.session.id then [h.session.id] else []) ++
      retires (h.act action) actions

/-- What the handlers so far left in the session, under which id if the last one changed it, and the
ids that they took from it. -/
structure SessionLeft (V : Type) where
  data : String → Option V := fun _ => none
  renamed : Option SessionId := none
  retired : List SessionId := []

structure SessionClient (V : Type) where
  manager : SessionManager V
  jar : String := ""
  left : SessionLeft V := {}

/-- The client keeps the cookie that was set last. -/
def SessionReply.jar (jar : String) : SessionReply → String
  | .handled (some cookie) => cookieValue cookie
  | _ => jar

namespace SessionClient
variable {V : Type}

def leaves (c : SessionClient V) (clock : SessionClock) (draws : List (Vector UInt8 16)) (actions : List (SessionAction V)) :
    SessionLeft V :=
  match c.manager.acquire clock draws c.jar with
  | (m, .ok (some ref)) =>
    { data := Visit.leave c.left.data actions
      renamed := if renames actions then some (Handling.run ⟨m, ref⟩ actions).session.id else none
      retired := retires ⟨m, ref⟩ actions ++ c.left.retired }
  | _ => c.left

def step (c : SessionClient V) : ClientEvent V → SessionClient V
  | .request clock draws actions =>
    let (m, reply) := sessionMiddleware c.manager clock draws actions c.jar
    { manager := m, jar := reply.jar c.jar, left := c.leaves clock draws actions }
  | .other op => { c with manager := op.apply c.manager }

def run (c : SessionClient V) (events : List (ClientEvent V)) : SessionClient V := events.foldl step c

/-- A handler sees what was left in the session, under the id that it was left with, and where no
handler gets to the request nothing was. -/
def Continuous (c : SessionClient V) : ClientEvent V → Prop
  | .request clock draws _ =>
    match c.manager.acquire clock draws c.jar with
    | (m, .ok (some ref)) =>
      (m.session ref).data = c.left.data ∧ ∀ id ∈ c.left.renamed, (m.session ref).id = id
    | _ => c.left.data = (fun _ => none) ∧ c.left.renamed = none
  | .other _ => True

def Holds (c : SessionClient V) (ref : Nat) : Prop := c.jar ≠ "" ∧ c.manager.store.lookup c.jar = some ref

/-- The random source gives ids that no session ever had. -/
def Fresh (c : SessionClient V) : ClientEvent V → Prop
  | .request clock draws actions =>
    (∀ id ∈ draws.map generateId, ¬ Issued c.manager id) ∧
      ∀ m ref, c.manager.acquire clock draws c.jar = (m, .ok (some ref)) → FreshIn ⟨m, ref⟩ actions
  | .other op => ∀ id ∈ op.draws, ¬ Issued c.manager id

def Lasting (c : SessionClient V) (event : ClientEvent V) : Prop :=
  ∀ ref, c.Holds ref → ∀ now ∈ event.readings, c.manager.expired now ref = false

def Foreign (c : SessionClient V) : ClientEvent V → Prop
  | .request _ _ _ => True
  | .other op => ∀ ref, c.Holds ref → ref ∉ op.refs ∧ c.jar ∉ op.ids

end SessionClient

namespace Handling
open SessionManager
variable {V : Type} {h : Handling V} {action : SessionAction V} {actions : List (SessionAction V)} {id : SessionId}

def op (h : Handling V) : SessionAction V → Op V
  | .set key value => .set h.ref key value
  | .remove key => .remove h.ref key
  | .clear => .clear h.ref
  | .regenerate now draws => .regenerate now (draws.map generateId) h.session.id
  | .destroy => .destroy h.session.id

theorem act_manager (h : Handling V) (action : SessionAction V) :
    (h.act action).manager = (h.op action).apply h.manager := by
  cases action with
  | set key value => rfl
  | remove key => rfl
  | clear => rfl
  | destroy => rfl
  | regenerate now draws =>
    rw [act, op, Op.apply]
    rcases h.manager.regenerate now (draws.map generateId) h.session.id with ⟨m, error | none | ref⟩
    · rfl
    · rfl
    · rfl

theorem op_draws (h : Handling V) (action : SessionAction V) : (h.op action).draws = action.draws := by
  cases action with
  | set key value | remove key | clear | destroy | regenerate now draws => rfl

theorem act_ref_lt (hr : h.ref < h.manager.made) (action : SessionAction V) :
    (h.act action).ref < (h.act action).manager.made := by
  have hgrown : h.manager.made ≤ (h.act action).manager.made :=
    act_manager h action ▸ (grown_apply h.manager (h.op action)).made
  cases action with
  | set key value | remove key | clear | destroy => exact Nat.lt_of_lt_of_le hr hgrown
  | regenerate now draws =>
    rw [act] at hgrown ⊢
    rcases regenerate_cases h.manager now (draws.map generateId) h.session.id with
      ⟨-, hc⟩ | ⟨-, hc | ⟨ref, newId, -, -, hc⟩⟩
    · rw [hc]
      exact hr
    · rw [hc]
      exact hr
    · rw [hc]
      exact Nat.lt_succ_self _

theorem act_data (hr : h.ref < h.manager.made) (ha : action.isRegenerate = false) (hd : action.isDestroy = false) :
    (h.act action).ref = h.ref ∧ (h.act action).manager.store = h.manager.store ∧
      (h.act action).session.id = h.session.id ∧
      Visit.act { data := h.session.data } action = { data := (h.act action).session.data } := by
  have hsession : ∀ f : Session V → Session V,
      (h.manager.onSession h.ref f).session h.ref = f (h.manager.session h.ref) := by
    intro f
    rw [session_onSession _ _ hr, Function.update_self]
  cases action with
  | set key value =>
    refine ⟨rfl, store_onSession .., ?_, ?_⟩
    · exact (congrArg Session.id (hsession (fun s => s.set key value))).trans rfl
    · exact congrArg (fun s => ({ data := Session.data s } : Visit V)) (hsession fun s => s.set key value).symm
  | remove key =>
    refine ⟨rfl, store_onSession .., ?_, ?_⟩
    · exact (congrArg Session.id (hsession (fun s => s.remove key))).trans rfl
    · exact congrArg (fun s => ({ data := Session.data s } : Visit V)) (hsession fun s => s.remove key).symm
  | clear =>
    refine ⟨rfl, store_onSession .., ?_, ?_⟩
    · exact (congrArg Session.id (hsession Session.clear)).trans rfl
    · exact congrArg (fun s => ({ data := Session.data s } : Visit V)) (hsession Session.clear).symm
  | regenerate now draws => cases ha
  | destroy => cases hd

theorem act_retired (hr : h.ref < h.manager.made) (hl : h.manager.store.lookup h.session.id = some h.ref)
    (hf : ∀ id ∈ action.draws, ¬ Issued h.manager id) (ha : action.isRegenerate || action.isDestroy) :
    Retired (h.act action).manager h.session.id := by
  have hid : Issued h.manager h.session.id := ⟨h.ref, hr, rfl⟩
  rw [act_manager]
  cases action with
  | set key value => cases ha
  | remove key => cases ha
  | clear => cases ha
  | destroy => exact retired_destroy hid
  | regenerate now draws => exact retired_regenerate hid hl fun hin => hf _ hin hid

theorem grown_run (h : Handling V) (actions : List (SessionAction V)) : Grown h.manager (h.run actions).manager := by
  induction actions generalizing h with
  | nil => exact Shrunk.grown (.refl h.manager)
  | cons action actions ih =>
    have hgrown := grown_apply h.manager (h.op action)
    rw [← act_manager] at hgrown
    exact hgrown.trans (ih (h.act action))

theorem filed_run (hm : h.manager.Filed) (hf : FreshIn h actions) : (h.run actions).manager.Filed := by
  induction actions generalizing h with
  | nil => exact hm
  | cons action actions ih =>
    refine ih ?_ hf.2
    rw [act_manager]
    exact hm.apply _ (op_draws h action ▸ hf.1)

theorem retired_run (hid : Retired h.manager id) (hf : FreshIn h actions) : Retired (h.run actions).manager id := by
  induction actions generalizing h with
  | nil => exact hid
  | cons action actions ih =>
    refine ih ?_ hf.2
    rw [act_manager]
    exact hid.apply _ (op_draws h action ▸ hf.1)

theorem retired_retires (hr : h.ref < h.manager.made) (hf : FreshIn h actions) (hid : id ∈ retires h actions) :
    Retired (h.run actions).manager id := by
  induction actions generalizing h with
  | nil => cases hid
  | cons action actions ih =>
    rw [retires] at hid
    rcases List.mem_append.1 hid with hid | hid
    · split at hid
      · next hren =>
        rw [Bool.and_eq_true] at hren
        rw [List.mem_singleton.1 hid]
        refine retired_run (h := h.act action) ?_ hf.2
        cases action with
        | set key value | remove key | clear | destroy => cases hren.1
        | regenerate now draws =>
          cases hl : h.manager.store.lookup h.session.id with
          | none =>
            have hsame : h.act (.regenerate now draws) = h := by rw [act, regenerate_none _ _ hl]
            rw [hsame] at hren
            simp at hren
          | some ref =>
            have hissued : Issued h.manager h.session.id := ⟨h.ref, hr, rfl⟩
            rw [act_manager]
            exact retired_regenerate hissued hl fun hin => hf.1 _ hin hissued
      · cases hid
    · exact ih (act_ref_lt hr action) hf.2 hid

theorem run_data (hr : h.ref < h.manager.made) (ha : actions.any SessionAction.isRegenerate = false)
    (hd : actions.any SessionAction.isDestroy = false) :
    (h.run actions).ref = h.ref ∧ (h.run actions).manager.store = h.manager.store ∧
      (h.run actions).session.id = h.session.id ∧
      (h.run actions).session.data = Visit.leave h.session.data actions := by
  induction actions generalizing h with
  | nil => exact ⟨rfl, rfl, rfl, rfl⟩
  | cons action actions ih =>
    rw [List.any_cons, Bool.or_eq_false_iff] at ha hd
    obtain ⟨href, hstore, hid, hdata⟩ := act_data hr ha.1 hd.1
    obtain ⟨href', hstore', hid', hdata'⟩ := ih (act_ref_lt hr action) ha.2 hd.2
    refine ⟨href'.trans href, hstore'.trans hstore, hid'.trans hid, hdata'.trans ?_⟩
    rw [Visit.leave, Visit.leave, List.foldl_cons, hdata]

/-- One that renames or destroys it leaves no session under the id that it had. -/
theorem run_retired (hr : h.ref < h.manager.made) (hl : h.manager.store.lookup h.session.id = some h.ref)
    (hf : FreshIn h actions) (ha : actions.any SessionAction.isRegenerate || actions.any SessionAction.isDestroy) :
    Retired (h.run actions).manager h.session.id := by
  induction actions generalizing h with
  | nil => cases ha
  | cons action actions ih =>
    by_cases hhead : action.isRegenerate || action.isDestroy
    · exact retired_run (h := h.act action) (act_retired hr hl hf.1 hhead) hf.2
    · rw [Bool.not_eq_true, Bool.or_eq_false_iff] at hhead
      obtain ⟨href, hstore, hid, -⟩ := act_data hr hhead.1 hhead.2
      rw [List.any_cons, List.any_cons, hhead.1, hhead.2, Bool.false_or, Bool.false_or] at ha
      rw [← hid]
      refine ih (act_ref_lt hr action) ?_ hf.2 ha
      rw [hstore, hid, href]
      exact hl

end Handling

theorem Visit.leave_destroyed (data : String → Option V) (actions : List (SessionAction V))
    (hd : actions.any SessionAction.isDestroy) : Visit.leave data actions = fun _ => none := by
  have destroyed : ∀ (actions : List (SessionAction V)) (v : Visit V), v.destroyed = true → v.data = (fun _ => none) →
      (actions.foldl Visit.act v).data = fun _ => none := by
    intro actions
    induction actions with
    | nil => exact fun v _ hv => hv
    | cons action actions ih =>
      intro v hv hdata
      refine ih (v.act action) ?_ ?_
      · cases action <;> simp [Visit.act, hv]
      · cases action <;> simp [Visit.act, hv, hdata]
  rw [Visit.leave]
  generalize ({ data } : Visit V) = v
  induction actions generalizing v with
  | nil => cases hd
  | cons action actions ih =>
    rw [List.any_cons, Bool.or_eq_true] at hd
    rcases hd with hd | hd
    · cases action with
      | destroy => exact destroyed actions _ rfl rfl
      | set key value | remove key | clear | regenerate now draws => cases hd
    · exact ih hd (v.act action)

namespace SessionManager
variable {V : Type} {m m₁ : SessionManager V} {clock : SessionClock} {draws : List (Vector UInt8 16)}
  {sessionId : String} {ref : Nat} {id : SessionId}

theorem acquire_keeps {P : SessionManager V → Prop} (hstart : P m)
    (hcreate : P m → P ((Op.create clock.create (draws.map generateId)).apply m))
    (htouch : ∀ m' ref, P m' → P ((Op.touch clock.touch ref).apply m')) : P (m.acquire clock draws sessionId).1 := by
  rw [acquire]
  split
  · exact htouch m _ hstart
  · have hmade : P (m.create clock.create (draws.map generateId)).1 := hcreate hstart
    split
    · next hc =>
      rw [hc] at hmade
      exact htouch _ _ hmade
    · next hc =>
      rw [hc] at hmade
      exact hmade

theorem filed_acquire (h : m.Filed) (hf : ∀ id ∈ draws.map generateId, ¬ Issued m id) :
    (m.acquire clock draws sessionId).1.Filed :=
  acquire_keeps h (fun h => h.apply _ hf) fun _ _ h => h.apply _ fun _ hid => nomatch hid

theorem retired_acquire (h : Retired m id) (hf : ∀ id ∈ draws.map generateId, ¬ Issued m id) :
    Retired (m.acquire clock draws sessionId).1 id :=
  acquire_keeps (P := fun m => Retired m id) h (fun h => h.apply _ hf) fun _ _ h => h.apply _ fun _ hid => nomatch hid

theorem grown_acquire (m : SessionManager V) (clock : SessionClock) (draws : List (Vector UInt8 16))
    (sessionId : String) : Grown m (m.acquire clock draws sessionId).1 :=
  acquire_keeps (P := Grown m) (Shrunk.grown (.refl m)) (fun h => h.trans (grown_apply m _))
    fun m' _ h => h.trans (grown_apply m' _)

theorem session_touch (hr : ref < m.made) :
    ((m.onSession ref fun s => s.touch now).session ref) = (m.session ref).touch now := by
  rw [session_onSession _ _ hr, Function.update_self]

theorem acquire_held (hid : sessionId ≠ "") (hl : m.store.lookup sessionId = some ref)
    (hx : m.expired clock.find ref = false) :
    m.acquire clock draws sessionId = (m.onSession ref fun s => s.touch clock.touch, .ok (some ref)) := by
  have hfind : m.find clock.find sessionId = some ref := by
    rw [SessionManager.find, hl]
    dsimp only
    rw [hx]
    rfl
  have hempty : sessionId.isEmpty = false := by simpa using hid
  rw [acquire, hempty, hfind]
  rfl

theorem acquire_new (hid : sessionId = "" ∨ Retired m sessionId)
    (h : m.acquire clock draws sessionId = (m₁, .ok (some ref))) :
    ref < m₁.made ∧ m₁.store.lookup (m₁.session ref).id = some ref ∧
      (m₁.session ref).data = (fun _ => none) ∧ ∃ buf, (m₁.session ref).id = generateId buf := by
  have hnone : (if sessionId.isEmpty then none else m.find clock.find sessionId) = none := by
    split
    · rfl
    · next hne =>
      refine (hid.resolve_left fun heq => hne ?_).find clock.find
      rw [heq]
      rfl
  rw [acquire, hnone] at h
  dsimp only at h
  obtain ⟨m₂, -, (hc | hc) | ⟨id, hdraw, hc, -⟩⟩ := create_cases m clock.create (draws.map generateId)
  · rw [hc] at h
    cases h
  · rw [hc] at h
    cases h
  · rw [hc] at h
    cases h
    have hmade : m₂.made < (m₂.file { id, lastAccess := clock.create.made }).made := Nat.lt_succ_self _
    obtain ⟨buf, -, hbuf⟩ := List.mem_map.1 (History.mem_draws hdraw)
    rw [session_touch hmade, session_file, store_onSession]
    refine ⟨?_, List.lookup_cons_self, rfl, buf, hbuf.symm⟩
    rw [onSession, if_pos hmade]
    exact hmade

theorem acquire_lt (hm : m.Filed) (h : m.acquire clock draws sessionId = (m₁, .ok (some ref))) : ref < m₁.made := by
  rw [acquire] at h
  split at h
  · next hfind =>
    cases h
    split at hfind
    · cases hfind
    · rw [SessionManager.find] at hfind
      split at hfind
      · cases hfind
      · next hl =>
        split at hfind
        · cases hfind
        · cases hfind
          have hr := (hm.made (hm.lookup.1 hl)).1
          rw [onSession, if_pos hr]
          exact hr
  · obtain ⟨m₂, -, (hc | hc) | ⟨id, -, hc, -⟩⟩ := create_cases m clock.create (draws.map generateId)
    · rw [hc] at h
      cases h
    · rw [hc] at h
      cases h
    · rw [hc] at h
      cases h
      have hmade : m₂.made < (m₂.file { id, lastAccess := clock.create.made }).made := Nat.lt_succ_self _
      rw [onSession, if_pos hmade]
      exact hmade

end SessionManager

namespace SessionClient
open SessionManager
variable {V : Type} {c : SessionClient V} {event : ClientEvent V} {clock : SessionClock} {draws : List (Vector UInt8 16)}
  {actions : List (SessionAction V)} {m : SessionManager V} {ref : Nat}

/-- What holds of every client: sessions are filed under their ids, and the ids that its handlers took
away do not come back. -/
structure Base (c : SessionClient V) : Prop where
  filed : c.manager.Filed
  retired : ∀ id ∈ c.left.retired, Retired c.manager id

/-- The cookie stands for a session with what was left, or for none when nothing was. -/
structure Tied (c : SessionClient V) : Prop where
  writable : c.manager.opts.writable = true
  renamed : c.left.renamed = none
  tie : ((c.jar = "" ∨ Retired c.manager c.jar) ∧ c.left.data = fun _ => none) ∨
    ∃ ref buf, c.Holds ref ∧ c.jar = generateId buf ∧ (c.manager.session ref).data = c.left.data

theorem step_handled (h : c.manager.acquire clock draws c.jar = (m, .ok (some ref))) :
    c.step (.request clock draws actions) =
      { manager := (Handling.run ⟨m, ref⟩ actions).manager
        jar := (SessionReply.handled ((Handling.run ⟨m, ref⟩ actions).manager.refresh ref c.jar)).jar c.jar
        left :=
          { data := Visit.leave c.left.data actions
            renamed := if renames actions then some (Handling.run ⟨m, ref⟩ actions).session.id else none
            retired := retires ⟨m, ref⟩ actions ++ c.left.retired } } := by
  rw [step, sessionMiddleware, leaves, h]

theorem step_refused (h : ∀ m ref, c.manager.acquire clock draws c.jar ≠ (m, .ok (some ref))) :
    c.step (.request clock draws actions) =
      { c with manager := (c.manager.acquire clock draws c.jar).1 } := by
  rw [step, sessionMiddleware, leaves]
  rcases hc : c.manager.acquire clock draws c.jar with ⟨m, error | none | ref⟩
  · rfl
  · rfl
  · exact absurd hc (h m ref)

theorem acquire_or (c : SessionClient V) (clock : SessionClock) (draws : List (Vector UInt8 16)) :
    (∃ m ref, c.manager.acquire clock draws c.jar = (m, .ok (some ref))) ∨
      ∀ m ref, c.manager.acquire clock draws c.jar ≠ (m, .ok (some ref)) := by
  by_cases h : ∃ m ref, c.manager.acquire clock draws c.jar = (m, .ok (some ref))
  · exact .inl h
  · exact .inr fun m ref hc => h ⟨m, ref, hc⟩

theorem Tied.admitted (h : c.Tied) (hb : c.Base) (hl : c.Lasting (.request clock draws actions))
    (ha : c.manager.acquire clock draws c.jar = (m, .ok (some ref))) :
    ref < m.made ∧ m.store.lookup (m.session ref).id = some ref ∧ (m.session ref).data = c.left.data ∧
      ∃ buf, (m.session ref).id = generateId buf := by
  rcases h.tie with ⟨hnone, hdata⟩ | ⟨ref', buf, hheld, hbuf, hdata⟩
  · obtain ⟨hr, hlookup, hnew, hid⟩ := acquire_new hnone ha
    exact ⟨hr, hlookup, hnew.trans hdata.symm, hid⟩
  · have hx := hl ref' hheld clock.find (List.mem_singleton.2 rfl)
    rw [acquire_held hheld.1 hheld.2 hx] at ha
    cases ha
    obtain ⟨hr, hid⟩ := hb.filed.made (hb.filed.lookup.1 hheld.2)
    rw [session_touch hr, store_onSession]
    refine ⟨?_, ?_, hdata, buf, hid.trans hbuf⟩
    · rw [onSession, if_pos hr]
      exact hr
    · show c.manager.store.lookup (c.manager.session ref).id = some ref
      rw [hid]
      exact hheld.2

theorem Tied.refused (h : c.Tied) (hl : c.Lasting (.request clock draws actions))
    (ha : ∀ m ref, c.manager.acquire clock draws c.jar ≠ (m, .ok (some ref))) :
    (c.jar = "" ∨ Retired c.manager c.jar) ∧ c.left.data = fun _ => none := by
  rcases h.tie with hnone | ⟨ref, buf, hheld, -, -⟩
  · exact hnone
  · exact absurd (acquire_held hheld.1 hheld.2 (hl ref hheld clock.find (List.mem_singleton.2 rfl))) (ha _ _)

theorem Tied.continuous (h : c.Tied) (hb : c.Base) (hl : c.Lasting event) : c.Continuous event := by
  cases event with
  | other op => trivial
  | request clock draws actions =>
    rw [Continuous]
    rcases hc : c.manager.acquire clock draws c.jar with ⟨m, error | none | ref⟩
    · refine ⟨(h.refused hl fun m' ref' hok => ?_).2, h.renamed⟩
      rw [hc] at hok
      cases hok
    · refine ⟨(h.refused hl fun m' ref' hok => ?_).2, h.renamed⟩
      rw [hc] at hok
      cases hok
    · refine ⟨(h.admitted hb hl hc).2.2.1, fun id hid => ?_⟩
      rw [h.renamed] at hid
      cases hid

theorem Base.step (hb : c.Base) (hf : c.Fresh event) : (c.step event).Base := by
  cases event with
  | other op => exact ⟨hb.filed.apply op hf, fun id hid => (hb.retired id hid).apply op hf⟩
  | request clock draws actions =>
    have hfiled : (c.manager.acquire clock draws c.jar).1.Filed := filed_acquire hb.filed hf.1
    have hretired : ∀ id ∈ c.left.retired, Retired (c.manager.acquire clock draws c.jar).1 id :=
      fun id hid => retired_acquire (hb.retired id hid) hf.1
    rcases acquire_or c clock draws with ⟨m, ref, ha⟩ | ha
    · have hfresh := hf.2 m ref ha
      rw [ha] at hfiled hretired
      rw [step_handled ha]
      refine ⟨Handling.filed_run hfiled hfresh, fun id hid => ?_⟩
      rcases List.mem_append.1 hid with hid | hid
      · exact Handling.retired_retires (acquire_lt hb.filed ha) hfresh hid
      · exact Handling.retired_run (h := ⟨m, ref⟩) (hretired id hid) hfresh
    · rw [step_refused ha]
      exact ⟨hfiled, hretired⟩

/-- A request whose handler does not end with its session under another id leaves the client in order. -/
theorem Tied.request (h : c.Tied) (hb : c.Base) (hf : c.Fresh (.request clock draws actions))
    (hl : c.Lasting (.request clock draws actions)) (hn : renames actions = false) :
    (c.step (.request clock draws actions)).Tied := by
  have hgrown := grown_acquire c.manager clock draws c.jar
  rcases acquire_or c clock draws with ⟨m, ref, ha⟩ | ha
  · obtain ⟨hr, hlookup, hdata, buf, hbuf⟩ := h.admitted hb hl ha
    have hfresh := hf.2 m ref ha
    rw [ha] at hgrown
    have hrun := Handling.grown_run ⟨m, ref⟩ actions
    have hid : ((Handling.run ⟨m, ref⟩ actions).manager.session ref).id = (m.session ref).id := hrun.ids ref hr
    have hopts : (Handling.run ⟨m, ref⟩ actions).manager.opts = c.manager.opts := hrun.opts.trans hgrown.opts
    have hjar : (SessionReply.handled ((Handling.run ⟨m, ref⟩ actions).manager.refresh ref c.jar)).jar c.jar =
        generateId buf := by
      rw [refresh, hid, hopts, hbuf]
      obtain ⟨cookie, hset, hvalue⟩ := cookieValue_setCookie h.writable buf
      split
      · rw [hset]
        exact hvalue
      · next hsame =>
        rw [Bool.not_eq_true, Bool.or_eq_false_iff, bne_eq_false_iff_eq] at hsame
        exact hsame.2
    rw [step_handled ha, hjar]
    refine ⟨hopts ▸ h.writable, by rw [hn]; rfl, ?_⟩
    by_cases hd : actions.any SessionAction.isDestroy
    · refine .inl ⟨.inr ?_, Visit.leave_destroyed _ _ hd⟩
      rw [← hbuf]
      refine Handling.run_retired (h := ⟨m, ref⟩) hr hlookup hfresh ?_
      rw [hd, Bool.or_true]
    · rw [Bool.not_eq_true] at hd
      have hg : actions.any SessionAction.isRegenerate = false := by
        rw [renames, hd, Bool.not_false, Bool.and_true] at hn
        exact hn
      obtain ⟨-, hstore, -, hleft⟩ := Handling.run_data (h := ⟨m, ref⟩) hr hg hd
      have href : (Handling.run ⟨m, ref⟩ actions).ref = ref := (Handling.run_data (h := ⟨m, ref⟩) hr hg hd).1
      refine .inr ⟨ref, buf, ⟨generateId_ne_empty, ?_⟩, rfl, ?_⟩
      · dsimp only
        rw [hstore, ← hbuf]
        exact hlookup
      · rw [Handling.session, href] at hleft
        dsimp only
        rw [hleft, ← hdata]
        rfl
  · obtain ⟨hnone, hdata⟩ := h.refused hl ha
    rw [step_refused ha]
    refine ⟨hgrown.opts ▸ h.writable, h.renamed, .inl ⟨?_, hdata⟩⟩
    exact hnone.imp id fun hid => retired_acquire hid hf.1

theorem Tied.other (h : c.Tied) (hb : c.Base) (hf : c.Fresh (.other op)) (hl : c.Lasting (.other op))
    (hforeign : c.Foreign (.other op)) : (c.step (.other op)).Tied := by
  refine ⟨(grown_apply c.manager op).opts ▸ h.writable, h.renamed, ?_⟩
  rcases h.tie with ⟨hnone, hdata⟩ | ⟨ref, buf, hheld, hbuf, hdata⟩
  · exact .inl ⟨hnone.imp id fun hid => hid.apply op hf, hdata⟩
  · obtain ⟨hr, hid⟩ := hforeign ref hheld
    have hkeeps := hb.filed.keeps (hb.filed.lookup.1 hheld.2) op hr hid (hl ref hheld)
    refine .inr ⟨ref, buf, ⟨hheld.1, (hb.filed.apply op hf).lookup.2 hkeeps.1⟩, hbuf, ?_⟩
    exact (congrArg Session.data hkeeps.2).trans hdata

/-- A client that has no cookie yet, with a manager that was just made. -/
def start (opts : SessionOptions) (now : Nat) : SessionClient V := { manager := { opts, lastGc := now } }

theorem base_start (opts : SessionOptions) (now : Nat) : (start (V := V) opts now).Base where
  filed := ⟨[], History.ok_start opts now 0, fun _ hid => nomatch hid⟩
  retired _ hid := nomatch hid

theorem base_run (opts : SessionOptions) (now : Nat) (events : List (ClientEvent V))
    (hf : ∀ n event, events[n]? = some event → ((start opts now).run (events.take n)).Fresh event) (n : Nat) :
    ((start opts now).run (events.take n)).Base :=
  Runs.invariant (P := Base) step (start opts now) events (base_start opts now)
    (fun n event hn hb => hb.step (hf n event hn)) n

/-- What the requests before did not end with another id for the session leaves in order. -/
theorem tied_run (opts : SessionOptions) (now : Nat) (events : List (ClientEvent V)) (hw : opts.writable = true)
    (hf : ∀ n event, events[n]? = some event → ((start opts now).run (events.take n)).Fresh event)
    (hl : ∀ n event, events[n]? = some event → ((start opts now).run (events.take n)).Lasting event)
    (hforeign : ∀ n event, events[n]? = some event → ((start opts now).run (events.take n)).Foreign event)
    (n : Nat) (hn : ∀ k < n, ∀ clock draws actions, events[k]? = some (.request clock draws actions) →
      renames actions = false) : ((start opts now).run (events.take n)).Tied := by
  refine Runs.induct (P := fun n c => (∀ k < n, ∀ clock draws actions,
    events[k]? = some (.request clock draws actions) → renames actions = false) → c.Tied)
    step (start opts now) events ?_ ?_ ?_ n hn
  · exact fun _ => ⟨hw, rfl, .inl ⟨.inl rfl, rfl⟩⟩
  · intro n event hev ih hn
    have ht := ih fun k hk => hn k (Nat.lt_succ_of_lt hk)
    have hb := base_run opts now events hf n
    cases event with
    | request clock draws actions =>
      exact ht.request hb (hf n _ hev) (hl n _ hev) (hn n (Nat.lt_succ_self n) clock draws actions hev)
    | other op => exact ht.other hb (hf n _ hev) (hl n _ hev) (hforeign n _ hev)
  · exact fun n _ ih hn => ih fun k hk => hn k (Nat.lt_succ_of_lt hk)

/-- Over every run with options that let the cookie be written and in which no request but the last
ends with the session under another id, each handler sees what the handlers before it left, and the ids
that the session had before are not found. -/
theorem continuous_run (opts : SessionOptions) (now : Nat) (events : List (ClientEvent V)) (hw : opts.writable = true)
    (hf : ∀ n event, events[n]? = some event → ((start opts now).run (events.take n)).Fresh event)
    (hl : ∀ n event, events[n]? = some event → ((start opts now).run (events.take n)).Lasting event)
    (hforeign : ∀ n event, events[n]? = some event → ((start opts now).run (events.take n)).Foreign event)
    (hn : ∀ (n k : Nat) clock draws actions clock' draws' actions', events[n]? = some (ClientEvent.request clock draws actions) →
      n < k → events[k]? = some (ClientEvent.request clock' draws' actions') → renames actions = false) (n : Nat) :
    (∀ id ∈ ((start opts now).run (events.take n)).left.retired, ∀ t,
        ((start opts now).run (events.take n)).manager.find t id = none) ∧
      ∀ event, events[n]? = some event → ((start opts now).run (events.take n)).Continuous event := by
  have hb := base_run opts now events hf n
  refine ⟨fun id hid t => (hb.retired id hid).find t, fun event hev => ?_⟩
  cases event with
  | other op => trivial
  | request clock draws actions =>
    have ht := tied_run opts now events hw hf hl hforeign n fun k hk clock' draws' actions' hk' =>
      hn k n clock' draws' actions' clock draws actions hk' hk hev
    exact ht.continuous hb (hl n _ hev)

theorem not_expired_zero (m : SessionManager V) (ref : Nat) : m.expired 0 ref = false := by
  rw [expired, elapsedMs, Nat.zero_sub, Bool.and_eq_false_iff]
  by_cases hage : 0 < m.opts.maxAge
  · refine .inr (decide_eq_false ?_)
    simp only [kMsPerSecond]
    omega
  · exact .inl (decide_eq_false hage)

/-- A client that writes, reads and logs out. -/
theorem continuous_run_logout :
    let clock : SessionClock := ⟨0, ⟨0, 0, 0, 0⟩, 0⟩
    let events : List (ClientEvent Nat) :=
      [.request clock [.replicate 16 1] [.set "user" 7], .request clock [] [.destroy], .request clock [] []]
    ∀ n, (∀ id ∈ ((start {} 0).run (events.take n)).left.retired, ∀ t,
        ((start {} 0).run (events.take n)).manager.find t id = none) ∧
      ∀ event, events[n]? = some event → ((start {} 0).run (events.take n)).Continuous event := by
  intro clock events
  refine continuous_run {} 0 events (by decide) ?_ ?_ ?_ ?_
  · intro n event hn
    match n with
    | 0 =>
      cases hn
      exact ⟨fun id _ hin => (nomatch hin.choose_spec.1), fun m ref _ => ⟨fun id hid => (nomatch hid), trivial⟩⟩
    | 1 =>
      cases hn
      exact ⟨fun id hid => (nomatch hid), fun m ref _ => ⟨fun id hid => (nomatch hid), trivial⟩⟩
    | 2 =>
      cases hn
      exact ⟨fun id hid => (nomatch hid), fun m ref _ => trivial⟩
    | n + 3 => cases hn
  · intro n event hn ref _ now hnow
    have hevent : event.readings = [0] := by
      have hall : ∀ event ∈ events, event.readings = [0] := by
        intro event he
        rcases List.mem_cons.1 he with rfl | he
        · rfl
        · rcases List.mem_pair.1 he with rfl | rfl
          · rfl
          · rfl
      exact hall event (List.mem_of_getElem? hn)
    rw [hevent] at hnow
    rw [List.mem_singleton.1 hnow]
    exact not_expired_zero _ _
  · intro n event hn
    match n with
    | 0 => cases hn; trivial
    | 1 => cases hn; trivial
    | 2 => cases hn; trivial
    | n + 3 => cases hn
  · intro n k clock draws actions clock' draws' actions' hn hk hlast
    match n with
    | 0 => cases hn; rfl
    | 1 => cases hn; rfl
    | 2 =>
      match k with
      | k + 3 => cases hlast
    | n + 3 => cases hn

/-- After a login that changes the id the client is somebody else. -/
theorem renamed_lost :
    let clock : SessionClock := ⟨0, ⟨0, 0, 0, 0⟩, 0⟩
    let login : ClientEvent Nat :=
      .request clock [.replicate 16 1] [.set "user" 7, .regenerate 0 [.replicate 16 2]]
    let next : ClientEvent Nat := .request clock [.replicate 16 3] []
    let c := (start {} 0).step login
    (start {} 0).Fresh login ∧ c.Fresh next ∧ c.Lasting next ∧ ¬ c.Continuous next ∧
      c.left.data "user" = some 7 ∧
      c.left.renamed = some (generateId (.replicate 16 2)) ∧
      ((c.manager.acquire clock [.replicate 16 3] c.jar).1.session 2).get "user" = none ∧
      ((c.manager.acquire clock [.replicate 16 3] c.jar).1.session 2).id = generateId (.replicate 16 3) := by
  intro clock login next c
  have hmade : c.manager.made = 2 := by decide
  refine ⟨⟨fun id _ hin => (nomatch hin.choose_spec.1), ?_⟩, ⟨?_, fun m ref _ => trivial⟩, ?_, ?_, by decide,
    by decide, by decide, by decide⟩
  · intro m ref ha
    have hm : m = ((start (V := Nat) {} 0).manager.acquire clock [.replicate 16 1] "").1 := (congrArg Prod.fst ha).symm
    have hsnd : ((start (V := Nat) {} 0).manager.acquire clock [.replicate 16 1] "").2 = .ok (some 0) := by decide
    have href : (.ok (some 0) : Except String (Option Nat)) = .ok (some ref) :=
      hsnd.symm.trans (congrArg Prod.snd ha)
    cases href
    subst hm
    refine ⟨fun id hid => (nomatch hid), fun id hid => ?_, trivial⟩
    rw [List.mem_singleton.1 hid]
    rintro ⟨r, hr, heq⟩
    have hone : (Handling.act ⟨((start (V := Nat) {} 0).manager.acquire clock [.replicate 16 1] "").1, 0⟩
        (.set "user" 7)).manager.made = 1 := by decide
    rw [hone] at hr
    obtain rfl : r = 0 := by omega
    exact absurd heq (by decide)
  · intro id hid
    rw [List.mem_singleton.1 hid]
    rintro ⟨r, hr, heq⟩
    rw [hmade] at hr
    obtain rfl | rfl : r = 0 ∨ r = 1 := by omega
    · exact absurd heq (by decide)
    · exact absurd heq (by decide)
  · intro ref _ now hnow
    rw [List.mem_singleton.1 hnow]
    exact not_expired_zero _ _
  · intro h
    have hsnd : (c.manager.acquire clock [.replicate 16 3] c.jar).2 = .ok (some 2) := by decide
    rw [Continuous, show c.manager.acquire clock [.replicate 16 3] c.jar = (_, .ok (some 2)) from Prod.ext rfl hsnd] at h
    have hid := h.2 (generateId (.replicate 16 2)) (by decide)
    exact absurd hid (by decide)

end SessionClient

end Hical
