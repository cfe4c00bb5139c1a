import Hical.Bytes
import Hical.Lib.Runs
import Mathlib.Data.List.Nodup
import Mathlib.Logic.Function.Basic

namespace Hical

abbrev WsConnectionId := Nat

/-- A connection of the hub; its session, which the hub does not keep alive, is named by a number. -/
structure ConnectionEntry where
  session : Nat
  rooms : List String := []
  deriving DecidableEq, Repr

structure RoomMember where
  id : WsConnectionId
  session : Nat
  deriving DecidableEq, Repr

structure WsHub where
  connections : WsConnectionId → Option ConnectionEntry := fun _ => none
  rooms : String → Option (List RoomMember) := fun _ => none
  nextId : WsConnectionId := 1

/-- A coroutine that was started to send a message, and the member that it was started for. -/
structure HubSend where
  member : RoomMember
  message : Bytes
  isBinary : Bool
  deriving DecidableEq, Repr

namespace WsHub

def add (h : WsHub) (session : Nat) : WsHub × WsConnectionId :=
  ({ h with
      connections := Function.update h.connections h.nextId (some { session })
      nextId := h.nextId + 1 }, h.nextId)

def eraseMember (id : WsConnectionId) (rooms : String → Option (List RoomMember)) (room : String) :
    String → Option (List RoomMember) :=
  match rooms room with
  | none => rooms
  | some members =>
    let members := members.filter fun m => m.id != id
    Function.update rooms room (if members = [] then none else some members)

def remove (h : WsHub) (id : WsConnectionId) : WsHub :=
  match h.connections id with
  | none => h
  | some entry =>
    { h with
      rooms := entry.rooms.foldl (eraseMember id) h.rooms
      connections := Function.update h.connections id none }

def join (h : WsHub) (id : WsConnectionId) (room : String) : WsHub :=
  match h.connections id with
  | none => h
  | some entry =>
    { h with
      connections := Function.update h.connections id
        (some { entry with rooms := entry.rooms.insert room })
      rooms := Function.update h.rooms room
        (some ((h.rooms room).getD [] ++ [⟨id, entry.session⟩])) }

def leave (h : WsHub) (id : WsConnectionId) (room : String) : WsHub :=
  { h with
    connections := match h.connections id with
      | none => h.connections
      | some entry => Function.update h.connections id
        (some { entry with rooms := entry.rooms.filter fun r => r != room })
    rooms := eraseMember id h.rooms room }

/-- `broadcastImpl`, where `isOpen` says of which sessions the hub gets hold, and finds them open. -/
def broadcastImpl (h : WsHub) (room : String) (payload : Bytes) (exclude : WsConnectionId)
    (isBinary : Bool) (isOpen : Nat → Bool) : List HubSend :=
  match h.rooms room with
  | none => []
  | some members =>
    (members.filter fun m => m.id != exclude && isOpen m.session).map fun m => ⟨m, payload, isBinary⟩

def broadcast (h : WsHub) (room : String) (message : Bytes) (exclude : WsConnectionId)
    (isOpen : Nat → Bool) : List HubSend :=
  h.broadcastImpl room message exclude false isOpen

def broadcastBinary (h : WsHub) (room : String) (data : Bytes) (exclude : WsConnectionId)
    (isOpen : Nat → Bool) : List HubSend :=
  h.broadcastImpl room data exclude true isOpen

def broadcastAll (h : WsHub) (message : Bytes) (exclude : WsConnectionId) (isOpen : Nat → Bool) :
    List HubSend :=
  (List.range h.nextId).filterMap fun id =>
    match h.connections id with
    | none => none
    | some entry =>
      if id != exclude && isOpen entry.session then some ⟨⟨id, entry.session⟩, message, false⟩
      else none

def sendTo (h : WsHub) (id : WsConnectionId) (message : Bytes) (isOpen : Nat → Bool) :
    List HubSend :=
  match h.connections id with
  | none => []
  | some entry => if isOpen entry.session then [⟨⟨id, entry.session⟩, message, false⟩] else []

def roomSize (h : WsHub) (room : String) : Nat := ((h.rooms room).map List.length).getD 0

/-- The calls on a hub; those that send find the sessions as they then are. -/
inductive Op where
  | add (session : Nat)
  | remove (id : WsConnectionId)
  | join (id : WsConnectionId) (room : String)
  | leave (id : WsConnectionId) (room : String)
  | broadcast (room : String) (message : Bytes) (exclude : WsConnectionId) (isOpen : Nat → Bool)
  | broadcastBinary (room : String) (data : Bytes) (exclude : WsConnectionId) (isOpen : Nat → Bool)
  | broadcastAll (message : Bytes) (exclude : WsConnectionId) (isOpen : Nat → Bool)
  | sendTo (id : WsConnectionId) (message : Bytes) (isOpen : Nat → Bool)

def step (h : WsHub) : Op → WsHub
  | .add session => (h.add session).1
  | .remove id => h.remove id
  | .join id room => h.join id room
  | .leave id room => h.leave id room
  | _ => h

def run (ops : List Op) : WsHub := ops.foldl step {}

def isIn (h : WsHub) (id : WsConnectionId) (room : String) : Prop :=
  ∃ entry, h.connections id = some entry ∧ room ∈ entry.rooms

def lists (h : WsHub) (room : String) (id : WsConnectionId) : Prop :=
  ∃ members, h.rooms room = some members ∧ id ∈ members.map RoomMember.id

/-- The rooms and the connections say the same of who is where, and say it once. -/
structure Consistent (h : WsHub) : Prop where
  agree : ∀ id room, h.isIn id room ↔ h.lists room id
  roomsOnce : ∀ id entry, h.connections id = some entry → entry.rooms.Nodup
  membersOnce : ∀ room members, h.rooms room = some members → (members.map RoomMember.id).Nodup
  nonempty : ∀ room members, h.rooms room = some members → members ≠ []
  registered : ∀ room members, h.rooms room = some members → ∀ m ∈ members,
    ∃ entry, h.connections m.id = some entry ∧ entry.session = m.session
  fresh : ∀ id entry, h.connections id = some entry → id < h.nextId

/-- A broadcast of this hub starts one send of the message for each member of the room whose session
is open and which is not excluded, and no other. -/
def Exact (h : WsHub) : Prop :=
  ∀ room payload exclude isBinary isOpen,
    (∀ send ∈ h.broadcastImpl room payload exclude isBinary isOpen,
      send.message = payload ∧ send.isBinary = isBinary ∧ h.isIn send.member.id room) ∧
    ∀ id entry, h.connections id = some entry →
      ((h.broadcastImpl room payload exclude isBinary isOpen).map HubSend.member).count
          ⟨id, entry.session⟩ =
        if room ∈ entry.rooms ∧ id ≠ exclude ∧ isOpen entry.session = true then 1 else 0

section Rooms
variable {rooms : String → Option (List RoomMember)} {id : WsConnectionId} {room : String}

def without (id : WsConnectionId) (members : Option (List RoomMember)) : Option (List RoomMember) :=
  (members.map fun l => l.filter fun m => m.id != id).filter fun l => l != []

theorem without_some (h : without id o = some l) :
    ∃ members, o = some members ∧ l = members.filter (fun m => m.id != id) ∧ l ≠ [] := by
  cases o with
  | none => cases h
  | some members =>
    rw [without, Option.map_some, Option.filter_some] at h
    split at h
    · next hl =>
      cases h
      exact ⟨members, rfl, rfl, fun hnil => by simp [hnil] at hl⟩
    · cases h

theorem without_ne (h : o = some members) (hm : m ∈ members) (hne : m.id ≠ id) :
    ∃ l, without id o = some l ∧ m ∈ l := by
  have hmem : m ∈ members.filter fun m => m.id != id :=
    List.mem_filter.2 ⟨hm, by simpa using hne⟩
  refine ⟨members.filter fun m => m.id != id, ?_, hmem⟩
  rw [h, without, Option.map_some, Option.filter_some, if_pos]
  simpa using List.ne_nil_of_mem hmem

theorem without_without (o : Option (List RoomMember)) : without id (without id o) = without id o := by
  cases h : without id o with
  | none => rfl
  | some l =>
    obtain ⟨members, -, hl, hne⟩ := without_some h
    rw [without, Option.map_some, hl, List.filter_filter]
    simp only [Bool.and_self]
    rw [← hl, Option.filter_some, if_pos]
    simpa using hne

theorem eraseMember_apply (r : String) :
    eraseMember id rooms room r = if r = room then without id (rooms r) else rooms r := by
  rw [eraseMember]
  cases hr : rooms room with
  | none =>
    dsimp only
    split
    · next h =>
      rw [h, hr]
      rfl
    · rfl
  | some members =>
    dsimp only
    by_cases h : r = room
    · subst h
      rw [Function.update_self, if_pos rfl, hr, without, Option.map_some, Option.filter_some]
      cases members.filter fun m => m.id != id with
      | nil => rfl
      | cons m l => rfl
    · rw [Function.update_of_ne h, if_neg h]

theorem foldl_eraseMember (l : List String) (r : String) :
    l.foldl (eraseMember id) rooms r = if r ∈ l then without id (rooms r) else rooms r := by
  induction l generalizing rooms with
  | nil => rw [List.foldl_nil, if_neg List.not_mem_nil]
  | cons room l ih =>
    rw [List.foldl_cons, ih, eraseMember_apply]
    by_cases hr : r = room
    · rw [if_pos hr, if_pos (List.mem_cons.2 (.inl hr)), without_without]
      split
      · rfl
      · rfl
    · rw [if_neg hr]
      simp only [List.mem_cons, hr, false_or]

end Rooms

section Steps
variable {h : WsHub} {id : WsConnectionId} {entry : ConnectionEntry} {room : String}

theorem connections_add (session : Nat) (id : WsConnectionId) :
    (h.add session).1.connections id =
      if id = h.nextId then some { session } else h.connections id :=
  Function.update_apply ..

theorem connections_remove (he : h.connections id = some entry) (i : WsConnectionId) :
    (h.remove id).connections i = if i = id then none else h.connections i := by
  rw [remove, he]
  exact Function.update_apply ..

theorem rooms_remove (he : h.connections id = some entry) (room : String) :
    (h.remove id).rooms room =
      if room ∈ entry.rooms then without id (h.rooms room) else h.rooms room := by
  rw [remove, he]
  exact foldl_eraseMember entry.rooms room

theorem connections_join (he : h.connections id = some entry) (room : String) (i : WsConnectionId) :
    (h.join id room).connections i =
      if i = id then some { entry with rooms := entry.rooms.insert room } else h.connections i := by
  rw [join, he]
  exact Function.update_apply ..

theorem rooms_join (he : h.connections id = some entry) (room r : String) :
    (h.join id room).rooms r =
      if r = room then some ((h.rooms room).getD [] ++ [⟨id, entry.session⟩]) else h.rooms r := by
  rw [join, he]
  exact Function.update_apply ..

theorem connections_leave (id : WsConnectionId) (room : String) (i : WsConnectionId) :
    (h.leave id room).connections i = (h.connections i).map fun entry =>
      if i = id then { entry with rooms := entry.rooms.filter fun r => r != room } else entry := by
  rw [leave]
  dsimp only
  cases he : h.connections id with
  | none =>
    dsimp only
    by_cases hi : i = id
    · rw [hi, he]
      rfl
    · simp only [if_neg hi, Option.map_id']
  | some entry =>
    dsimp only
    rw [Function.update_apply]
    split
    · next hi =>
      rw [hi, he]
      rfl
    · rw [Option.map_id']

theorem rooms_leave (id : WsConnectionId) (room r : String) :
    (h.leave id room).rooms r = if r = room then without id (h.rooms r) else h.rooms r :=
  eraseMember_apply r

theorem consistent_empty : ({} : WsHub).Consistent where
  agree id room := by
    constructor
    · rintro ⟨entry, he, -⟩
      cases he
    · rintro ⟨members, hm, -⟩
      cases hm
  roomsOnce _ _ he := nomatch he
  membersOnce _ _ hm := nomatch hm
  nonempty _ _ hm := nomatch hm
  registered _ _ hm := nomatch hm
  fresh _ _ he := nomatch he

theorem Consistent.not_lists (hc : h.Consistent) (room : String) : ¬ h.lists room h.nextId := by
  intro hl
  obtain ⟨entry, he, -⟩ := (hc.agree h.nextId room).2 hl
  exact Nat.lt_irrefl _ (hc.fresh _ entry he)

theorem Consistent.add (hc : h.Consistent) (session : Nat) : (h.add session).1.Consistent := by
  refine ⟨fun id room => ?_, fun id entry he => ?_, hc.membersOnce, hc.nonempty,
    fun room members hr m hm => ?_, fun id entry he => ?_⟩
  · rw [show (h.add session).1.lists room id ↔ h.lists room id from .rfl, ← hc.agree, isIn, isIn,
      connections_add]
    split
    · next hid =>
      subst hid
      refine ⟨?_, fun hi => absurd ((hc.agree _ _).1 hi) (hc.not_lists room)⟩
      rintro ⟨entry, he, hin⟩
      cases he
      cases hin
    · exact .rfl
  · rw [connections_add] at he
    split at he
    · cases he
      exact List.nodup_nil
    · exact hc.roomsOnce id entry he
  · obtain ⟨entry, he, hs⟩ := hc.registered room members hr m hm
    refine ⟨entry, ?_, hs⟩
    rw [connections_add, if_neg (Nat.ne_of_lt (hc.fresh _ entry he)), he]
  · rw [connections_add] at he
    split at he
    · next hid => exact hid ▸ Nat.lt_succ_self _
    · exact Nat.lt_succ_of_lt (hc.fresh id entry he)

theorem Consistent.less {h' : WsHub} (hc : h.Consistent) (id : WsConnectionId)
    (hrooms : ∀ r, h'.rooms r = h.rooms r ∨ h'.rooms r = without id (h.rooms r))
    (hother : ∀ i, i ≠ id → h'.connections i = h.connections i)
    (hself : ∀ room, h'.isIn id room ↔ h'.lists room id)
    (honce : ∀ entry, h'.connections id = some entry →
      ∃ before, h.connections id = some before ∧ entry.rooms.Sublist before.rooms ∧
        entry.session = before.session)
    (hnext : h'.nextId = h.nextId) : h'.Consistent := by
  have hmembers : ∀ r members', h'.rooms r = some members' → members' ≠ [] ∧
      ∃ members, h.rooms r = some members ∧ members'.Sublist members := by
    intro r members' hr
    rcases hrooms r with h₁ | h₁
    · rw [h₁] at hr
      exact ⟨hc.nonempty r members' hr, members', hr, .refl _⟩
    · rw [h₁] at hr
      obtain ⟨members, hm, hl, hne⟩ := without_some hr
      exact ⟨hne, members, hm, hl ▸ List.filter_sublist⟩
  have hlists : ∀ r i, i ≠ id → (h'.lists r i ↔ h.lists r i) := by
    intro r i hne
    constructor
    · rintro ⟨members', hr, hi⟩
      obtain ⟨-, members, hm, hs⟩ := hmembers r members' hr
      exact ⟨members, hm, (hs.map _).subset hi⟩
    · rintro ⟨members, hm, hi⟩
      rcases hrooms r with h₁ | h₁
      · exact ⟨members, h₁.trans hm, hi⟩
      · obtain ⟨m, hmem, rfl⟩ := List.mem_map.1 hi
        obtain ⟨l, hl, hml⟩ := without_ne hm hmem hne
        exact ⟨l, h₁.trans hl, List.mem_map_of_mem hml⟩
  refine ⟨fun i room => ?_, fun i entry he => ?_, fun room members' hr => ?_,
    fun room members' hr => (hmembers room members' hr).1, fun room members' hr m hm => ?_,
    fun i entry he => ?_⟩
  · by_cases hi : i = id
    · exact hi ▸ hself room
    · rw [hlists room i hi, ← hc.agree, isIn, isIn, hother i hi]
  · by_cases hi : i = id
    · subst hi
      obtain ⟨before, hb, hs, -⟩ := honce entry he
      exact (hc.roomsOnce i before hb).sublist hs
    · exact hc.roomsOnce i entry (hother i hi ▸ he)
  · obtain ⟨-, members, hm, hs⟩ := hmembers room members' hr
    exact (hc.membersOnce room members hm).sublist (hs.map _)
  · obtain ⟨-, members, hmem, hs⟩ := hmembers room members' hr
    obtain ⟨before, hb, hsession⟩ := hc.registered room members hmem m (hs.subset hm)
    by_cases hi : m.id = id
    · obtain ⟨entry, he, -⟩ := (hself room).2 ⟨members', hr, hi ▸ List.mem_map_of_mem hm⟩
      obtain ⟨before', hb', -, hs'⟩ := honce entry he
      rw [hi] at hb ⊢
      rw [hb] at hb'
      cases hb'
      exact ⟨entry, he, hs'.trans hsession⟩
    · exact ⟨before, (hother m.id hi).trans hb, hsession⟩
  · rw [hnext]
    by_cases hi : i = id
    · subst hi
      obtain ⟨before, hb, -⟩ := honce entry he
      exact hc.fresh i before hb
    · exact hc.fresh i entry (hother i hi ▸ he)

theorem not_mem_without (h : without id o = some l) : id ∉ l.map RoomMember.id := by
  obtain ⟨members, -, rfl, -⟩ := without_some h
  intro hm
  obtain ⟨m, hm, rfl⟩ := List.mem_map.1 hm
  have hne := (List.mem_filter.1 hm).2
  simp at hne

theorem Consistent.leave (hc : h.Consistent) (id : WsConnectionId) (room : String) :
    (h.leave id room).Consistent := by
  refine hc.less id (fun r => ?_) (fun i hi => ?_) (fun r => ?_) (fun entry he => ?_) rfl
  · rw [rooms_leave]
    split
    · exact .inr rfl
    · exact .inl rfl
  · simp only [connections_leave, if_neg hi, Option.map_id']
  · rw [isIn, lists, rooms_leave]
    simp only [connections_leave, if_pos, Option.map_eq_some_iff]
    by_cases hr : r = room
    · rw [if_pos hr]
      constructor
      · rintro ⟨_, ⟨entry, -, rfl⟩, hin⟩
        simp [hr] at hin
      · rintro ⟨l, hl, hin⟩
        exact absurd hin (not_mem_without hl)
    · rw [if_neg hr, ← lists, ← hc.agree]
      constructor
      · rintro ⟨_, ⟨entry, he, rfl⟩, hin⟩
        exact ⟨entry, he, (List.mem_filter.1 hin).1⟩
      · rintro ⟨entry, he, hin⟩
        exact ⟨_, ⟨entry, he, rfl⟩, List.mem_filter.2 ⟨hin, by simpa using hr⟩⟩
  · rw [connections_leave] at he
    obtain ⟨before, hb, rfl⟩ := Option.map_eq_some_iff.1 he
    rw [if_pos rfl]
    exact ⟨before, hb, List.filter_sublist, rfl⟩

theorem Consistent.remove (hc : h.Consistent) (id : WsConnectionId) : (h.remove id).Consistent := by
  cases he : h.connections id with
  | none =>
    rw [WsHub.remove, he]
    exact hc
  | some entry =>
    have hself : (h.remove id).connections id = none := by
      rw [connections_remove he, if_pos rfl]
    refine hc.less id (fun r => ?_) (fun i hi => ?_) (fun r => ?_) (fun entry' he' => ?_) ?_
    · rw [rooms_remove he]
      split
      · exact .inr rfl
      · exact .inl rfl
    · rw [connections_remove he, if_neg hi]
    · constructor
      · rintro ⟨entry', he', -⟩
        rw [hself] at he'
        cases he'
      · rintro ⟨l, hl, hin⟩
        rw [rooms_remove he] at hl
        split at hl
        · exact absurd hin (not_mem_without hl)
        · next hr =>
          obtain ⟨entry', he', hin'⟩ := (hc.agree id r).2 ⟨l, hl, hin⟩
          rw [he] at he'
          cases he'
          exact absurd hin' hr
    · rw [hself] at he'
      cases he'
    · rw [WsHub.remove, he]

theorem mem_getD {o : Option (List RoomMember)} :
    id ∈ (o.getD []).map RoomMember.id ↔ ∃ members, o = some members ∧ id ∈ members.map RoomMember.id := by
  cases o with
  | none => simp
  | some members => simp

theorem Consistent.join (hc : h.Consistent) (id : WsConnectionId) (room : String)
    (hnew : ¬ h.isIn id room) : (h.join id room).Consistent := by
  cases he : h.connections id with
  | none =>
    rw [WsHub.join, he]
    exact hc
  | some entry =>
    have hfresh : id ∉ ((h.rooms room).getD []).map RoomMember.id :=
      fun hm => hnew ((hc.agree id room).2 (mem_getD.1 hm))
    have hconnections := connections_join he room
    have hrooms := rooms_join he room
    refine ⟨fun i r => ?_, fun i entry' he' => ?_, fun r members hr => ?_, fun r members hr => ?_,
      fun r members hr m hm => ?_, fun i entry' he' => ?_⟩
    · have hbefore := hc.agree i r
      rw [isIn, lists] at hbefore ⊢
      rw [hconnections, hrooms]
      by_cases hr : r = room
      · subst hr
        rw [if_pos rfl]
        simp only [Option.some.injEq, exists_eq_left', List.map_append, List.map_cons, List.map_nil,
          List.mem_append, List.mem_singleton]
        rw [mem_getD, ← hbefore]
        by_cases hi : i = id
        · rw [if_pos hi]
          simp only [Option.some.injEq, exists_eq_left', hi, or_true, iff_true]
          exact List.mem_insert_self
        · rw [if_neg hi]
          simp only [hi, or_false]
      · rw [if_neg hr, ← hbefore]
        by_cases hi : i = id
        · subst hi
          rw [if_pos rfl, he]
          simp only [Option.some.injEq, exists_eq_left', List.mem_insert_iff, hr, false_or]
        · rw [if_neg hi]
    · rw [hconnections] at he'
      split at he'
      · cases he'
        exact (hc.roomsOnce id entry he).insert
      · exact hc.roomsOnce i entry' he'
    · rw [hrooms] at hr
      split at hr
      · cases hr
        rw [List.map_append, List.nodup_append]
        refine ⟨?_, List.nodup_singleton _, ?_⟩
        · cases hroom : h.rooms room with
          | none => exact List.nodup_nil
          | some members => exact hc.membersOnce room members hroom
        · intro a ha b hb hab
          rw [List.map_singleton, List.mem_singleton] at hb
          rw [hab, hb] at ha
          exact hfresh ha
      · exact hc.membersOnce r members hr
    · rw [hrooms] at hr
      split at hr
      · cases hr
        simp
      · exact hc.nonempty r members hr
    · have hold : (∃ e, h.connections m.id = some e ∧ e.session = m.session) →
          ∃ e, (h.join id room).connections m.id = some e ∧ e.session = m.session := by
        rintro ⟨e, he', hs⟩
        rw [hconnections]
        split
        · next hi =>
          rw [hi, he] at he'
          cases he'
          exact ⟨_, rfl, hs⟩
        · exact ⟨e, he', hs⟩
      rw [hrooms] at hr
      split at hr
      · cases hr
        rcases List.mem_append.1 hm with hm | hm
        · cases hroom : h.rooms room with
          | none =>
            rw [hroom] at hm
            cases hm
          | some members =>
            rw [hroom] at hm
            exact hold (hc.registered room members hroom m hm)
        · rw [List.mem_singleton.1 hm]
          exact ⟨{ entry with rooms := entry.rooms.insert room }, by rw [hconnections, if_pos rfl], rfl⟩
      · exact hold (hc.registered r members hr m hm)
    · have hnext : (h.join id room).nextId = h.nextId := by rw [WsHub.join, he]
      rw [hnext]
      rw [hconnections] at he'
      split at he'
      · next hi => exact hi ▸ hc.fresh id entry he
      · exact hc.fresh i entry' he'

theorem not_consistent_join (hc : h.Consistent) (hin : h.isIn id room) :
    ¬ (h.join id room).Consistent := by
  intro hc'
  obtain ⟨members, hr, hm⟩ := (hc.agree id room).1 hin
  obtain ⟨entry, he, -⟩ := hin
  have hr' : (h.join id room).rooms room = some (members ++ [⟨id, entry.session⟩]) := by
    rw [rooms_join he, if_pos rfl, hr]
    rfl
  have hnodup := hc'.membersOnce room _ hr'
  rw [List.map_append, List.nodup_append] at hnodup
  exact hnodup.2.2 id hm id (List.mem_singleton_self _) rfl

theorem Consistent.exact (hc : h.Consistent) : h.Exact := by
  intro room payload exclude isBinary isOpen
  rw [broadcastImpl]
  cases hr : h.rooms room with
  | none =>
    refine ⟨fun send hs => (nomatch hs), fun id entry he => ?_⟩
    rw [if_neg]
    · rfl
    · rintro ⟨hin, -⟩
      obtain ⟨members, hm, -⟩ := (hc.agree id room).1 ⟨entry, he, hin⟩
      rw [hr] at hm
      cases hm
  | some members =>
    dsimp only
    refine ⟨fun send hs => ?_, fun id entry he => ?_⟩
    · obtain ⟨m, hm, rfl⟩ := List.mem_map.1 hs
      exact ⟨rfl, rfl, (hc.agree _ room).2
        ⟨members, hr, List.mem_map_of_mem (List.mem_filter.1 hm).1⟩⟩
    · have hnodup : members.Nodup := (hc.membersOnce room members hr).of_map _
      have hmem : ⟨id, entry.session⟩ ∈ members ↔ room ∈ entry.rooms := by
        constructor
        · intro hm
          obtain ⟨entry', he', hin⟩ := (hc.agree id room).2 ⟨members, hr, List.mem_map_of_mem hm⟩
          rw [he] at he'
          cases he'
          exact hin
        · intro hin
          obtain ⟨members', hr', hm⟩ := (hc.agree id room).1 ⟨entry, he, hin⟩
          rw [hr] at hr'
          cases hr'
          obtain ⟨m, hm, hid⟩ := List.mem_map.1 hm
          obtain ⟨entry', he', hs⟩ := hc.registered room members hr m hm
          rw [hid, he] at he'
          cases he'
          rw [hs, ← hid]
          exact hm
      rw [List.map_map]
      have hmap : (members.filter fun m => m.id != exclude && isOpen m.session).map
          (HubSend.member ∘ fun m => ⟨m, payload, isBinary⟩) =
          members.filter fun m => m.id != exclude && isOpen m.session := List.map_id _
      rw [hmap, (hnodup.filter _).count]
      simp only [List.mem_filter, hmem, Bool.and_eq_true, bne_iff_ne]

end Steps

theorem run_take_succ (ops : List Op) (hn : ops[n]? = some op) :
    run (ops.take (n + 1)) = (run (ops.take n)).step op :=
  Runs.take_succ step {} ops hn

theorem consistent_run (ops : List Op)
    (hjoin : ∀ n id room, ops[n]? = some (.join id room) → ¬ (run (ops.take n)).isIn id room)
    (n : Nat) : (run (ops.take n)).Consistent := by
  refine Runs.invariant (P := Consistent) step {} ops consistent_empty (fun n op hn hc => ?_) n
  cases op with
  | add session => exact hc.add session
  | remove id => exact hc.remove id
  | join id room => exact hc.join id room (hjoin n id room hn)
  | leave id room => exact hc.leave id room
  | broadcast room message exclude isOpen | broadcastBinary room data exclude isOpen
  | broadcastAll message exclude isOpen | sendTo id message isOpen => exact hc

/-- Rooms and connections agree and broadcasts are exact all along, as long as no connection joins a
room that it is in; one that does is listed twice. -/
theorem membership_iff (ops : List Op) :
    (∀ n, (run (ops.take n)).Consistent ∧ (run (ops.take n)).Exact) ↔
      ∀ n id room, ops[n]? = some (.join id room) → ¬ (run (ops.take n)).isIn id room := by
  constructor
  · intro h n id room hn hin
    have hnext := (h (n + 1)).1
    rw [run_take_succ ops hn] at hnext
    exact not_consistent_join (h n).1 hin hnext
  · intro hjoin n
    have hc := consistent_run ops hjoin n
    exact ⟨hc, hc.exact⟩

/-- A second join lists the connection twice and makes a broadcast send twice. -/
theorem repeated_join :
    let h := run [.add 7, .join 1 "lobby", .join 1 "lobby"]
    ¬ h.Consistent ∧ ¬ h.Exact ∧
      h.broadcast "lobby" [104, 105] 0 (fun _ => true) =
        [⟨⟨1, 7⟩, [104, 105], false⟩, ⟨⟨1, 7⟩, [104, 105], false⟩] := by
  refine ⟨fun hc => ?_, fun he => ?_, by decide⟩
  · have hn := hc.membersOnce "lobby" [⟨1, 7⟩, ⟨1, 7⟩] (by decide)
    exact absurd hn (by decide)
  · have hcount := (he "lobby" [] 0 false fun _ => true).2 1 ⟨7, ["lobby"]⟩ (by decide)
    exact absurd hcount (by decide)

section Removal
variable {h : WsHub} {id : WsConnectionId}

/-- The coroutines that a call starts. -/
def sends (h : WsHub) : Op → List HubSend
  | .broadcast room message exclude isOpen => h.broadcast room message exclude isOpen
  | .broadcastBinary room data exclude isOpen => h.broadcastBinary room data exclude isOpen
  | .broadcastAll message exclude isOpen => h.broadcastAll message exclude isOpen
  | .sendTo id message isOpen => h.sendTo id message isOpen
  | _ => []

/-- No connection has the number, and none is to get it. -/
structure Gone (id : WsConnectionId) (h : WsHub) : Prop where
  given : id < h.nextId
  unregistered : h.connections id = none

/-- The rooms list only connections that know of it; they may list one of them twice. -/
def Known (h : WsHub) : Prop := ∀ id room, h.lists room id → h.isIn id room

theorem lists_without {members : Option (List RoomMember)} {i : WsConnectionId} (hl : without id members = some l)
    (hi : i ∈ l.map RoomMember.id) :
    i ≠ id ∧ ∃ before, members = some before ∧ i ∈ before.map RoomMember.id := by
  refine ⟨fun he => not_mem_without hl (he ▸ hi), ?_⟩
  obtain ⟨before, hb, rfl, -⟩ := without_some hl
  exact ⟨before, hb, (List.filter_sublist.map _).subset hi⟩

theorem lists_remove {i : WsConnectionId} {room : String} (hk : h.Known) (hl : (h.remove id).lists room i) :
    i ≠ id ∧ h.lists room i := by
  obtain ⟨l, hr, hi⟩ := hl
  cases he : h.connections id with
  | none =>
    rw [WsHub.remove, he] at hr
    refine ⟨?_, l, hr, hi⟩
    rintro rfl
    obtain ⟨entry, he', -⟩ := hk i room ⟨l, hr, hi⟩
    rw [he] at he'
    cases he'
  | some entry =>
    rw [rooms_remove he] at hr
    split at hr
    · exact lists_without hr hi
    · next hout =>
      refine ⟨?_, l, hr, hi⟩
      rintro rfl
      obtain ⟨entry', he', hin⟩ := hk i room ⟨l, hr, hi⟩
      rw [he] at he'
      cases he'
      exact hout hin

theorem lists_join {i : WsConnectionId} {room r : String} (hl : (h.join id room).lists r i) :
    h.lists r i ∨ i = id ∧ r = room ∧ ∃ entry, h.connections id = some entry := by
  obtain ⟨l, hr, hi⟩ := hl
  cases he : h.connections id with
  | none =>
    rw [WsHub.join, he] at hr
    exact .inl ⟨l, hr, hi⟩
  | some entry =>
    rw [rooms_join he] at hr
    split at hr
    · next hroom =>
      cases hr
      rw [List.map_append, List.mem_append, List.map_singleton, List.mem_singleton, mem_getD] at hi
      exact hi.imp (fun hi => hroom ▸ hi) fun hi => ⟨hi, hroom, entry, rfl⟩
    · exact .inl ⟨l, hr, hi⟩

theorem lists_leave {i : WsConnectionId} {room r : String} (hl : (h.leave id room).lists r i) :
    h.lists r i ∧ ¬ (i = id ∧ r = room) := by
  obtain ⟨l, hr, hi⟩ := hl
  rw [rooms_leave] at hr
  split at hr
  · obtain ⟨hne, hbefore⟩ := lists_without hr hi
    exact ⟨hbefore, fun he => hne he.1⟩
  · next hroom => exact ⟨⟨l, hr, hi⟩, fun he => hroom he.2⟩

theorem known_add (hk : h.Known) (session : Nat) (hnew : h.connections h.nextId = none) :
    (h.add session).1.Known := by
  intro i room hl
  obtain ⟨entry, he, hin⟩ := hk i room hl
  refine ⟨entry, ?_, hin⟩
  rw [connections_add, if_neg, he]
  rintro rfl
  rw [hnew] at he
  cases he

theorem known_remove (hk : h.Known) (id : WsConnectionId) : (h.remove id).Known := by
  intro i room hl
  obtain ⟨hne, hl⟩ := lists_remove hk hl
  obtain ⟨entry, he, hin⟩ := hk i room hl
  refine ⟨entry, ?_, hin⟩
  cases hid : h.connections id with
  | none => rw [WsHub.remove, hid, he]
  | some before => rw [connections_remove hid, if_neg hne, he]

theorem known_join (hk : h.Known) (id : WsConnectionId) (room : String) : (h.join id room).Known := by
  intro i r hl
  have hjoined : ∀ entry, h.connections i = some entry → r ∈ entry.rooms ∨ i = id ∧ r = room →
      (h.join id room).isIn i r := by
    intro entry he hin
    by_cases hi : i = id
    · subst hi
      refine ⟨{ entry with rooms := entry.rooms.insert room }, ?_, List.mem_insert_iff.2 (hin.symm.imp_left And.right)⟩
      rw [connections_join he, if_pos rfl]
    · refine ⟨entry, ?_, hin.resolve_right fun h => hi h.1⟩
      cases hid : h.connections id with
      | none => rw [WsHub.join, hid, he]
      | some before => rw [connections_join hid, if_neg hi, he]
  rcases lists_join hl with hl | ⟨rfl, rfl, entry, he⟩
  · obtain ⟨entry, he, hin⟩ := hk i r hl
    exact hjoined entry he (.inl hin)
  · exact hjoined entry he (.inr ⟨rfl, rfl⟩)

theorem known_leave (hk : h.Known) (id : WsConnectionId) (room : String) : (h.leave id room).Known := by
  intro i r hl
  obtain ⟨hl, hleft⟩ := lists_leave hl
  obtain ⟨entry, he, hin⟩ := hk i r hl
  rw [isIn, connections_leave, he]
  refine ⟨_, rfl, ?_⟩
  split
  · next hi => exact List.mem_filter.2 ⟨hin, bne_iff_ne.2 fun hr => hleft ⟨hi, hr⟩⟩
  · exact hin

/-- What no call breaks: the rooms know their members, and the numbers to come are free. -/
structure Sane (h : WsHub) : Prop where
  known : h.Known
  free : ∀ id, h.nextId ≤ id → h.connections id = none

theorem Sane.step (hs : h.Sane) (op : Op) : (h.step op).Sane := by
  cases op with
  | add session =>
    refine ⟨known_add hs.known session (hs.free _ (Nat.le_refl _)), fun i hi => ?_⟩
    have hlt : h.nextId < i := hi
    rw [WsHub.step, connections_add, if_neg (Nat.ne_of_gt hlt)]
    exact hs.free i (Nat.le_of_lt hlt)
  | remove id =>
    refine ⟨known_remove hs.known id, fun i hi => ?_⟩
    cases he : h.connections id with
    | none =>
      rw [WsHub.step, WsHub.remove, he] at hi ⊢
      exact hs.free i hi
    | some entry =>
      have hnext : (h.remove id).nextId = h.nextId := by rw [WsHub.remove, he]
      rw [WsHub.step, connections_remove he, hs.free i (hnext ▸ hi), ite_self]
  | join id room =>
    refine ⟨known_join hs.known id room, fun i hi => ?_⟩
    cases he : h.connections id with
    | none =>
      rw [WsHub.step, WsHub.join, he] at hi ⊢
      exact hs.free i hi
    | some entry =>
      have hnext : (h.join id room).nextId = h.nextId := by rw [WsHub.join, he]
      have hfree := hs.free i (hnext ▸ hi)
      rw [WsHub.step, connections_join he, if_neg, hfree]
      rintro rfl
      rw [he] at hfree
      cases hfree
  | leave id room =>
    refine ⟨known_leave hs.known id room, fun i hi => ?_⟩
    rw [WsHub.step, connections_leave, hs.free i hi, Option.map_none]
  | broadcast | broadcastBinary | broadcastAll | sendTo => exact hs

theorem sane_empty : ({} : WsHub).Sane := by
  refine ⟨fun id room hl => ?_, fun _ _ => rfl⟩
  obtain ⟨members, hr, -⟩ := hl
  cases hr

theorem gone_remove (hid : id < h.nextId) : Gone id (h.remove id) := by
  cases he : h.connections id with
  | none =>
    rw [WsHub.remove, he]
    exact ⟨hid, he⟩
  | some entry =>
    refine ⟨?_, by rw [connections_remove he, if_pos rfl]⟩
    rwa [WsHub.remove, he]

theorem Gone.step (hg : Gone id h) (op : Op) : Gone id (h.step op) := by
  cases op with
  | add session =>
    refine ⟨Nat.lt_succ_of_lt hg.given, ?_⟩
    rw [WsHub.step, connections_add, if_neg (Nat.ne_of_lt hg.given)]
    exact hg.unregistered
  | remove i =>
    cases he : h.connections i with
    | none =>
      rw [WsHub.step, WsHub.remove, he]
      exact hg
    | some entry =>
      refine ⟨?_, by rw [WsHub.step, connections_remove he, hg.unregistered, ite_self]⟩
      rw [WsHub.step, WsHub.remove, he]
      exact hg.given
  | join i room =>
    cases he : h.connections i with
    | none =>
      rw [WsHub.step, WsHub.join, he]
      exact hg
    | some entry =>
      refine ⟨?_, ?_⟩
      · rw [WsHub.step, WsHub.join, he]
        exact hg.given
      · rw [WsHub.step, connections_join he, if_neg, hg.unregistered]
        rintro rfl
        rw [hg.unregistered] at he
        cases he
  | leave i room =>
    refine ⟨hg.given, ?_⟩
    rw [WsHub.step, connections_leave, hg.unregistered, Option.map_none]
  | broadcast | broadcastBinary | broadcastAll | sendTo => exact hg

theorem Gone.unlisted (hg : Gone id h) (hk : h.Known) (room : String) : ¬ h.lists room id := by
  intro hl
  obtain ⟨entry, he, -⟩ := hk id room hl
  rw [hg.unregistered] at he
  cases he

theorem Gone.broadcastImpl (hg : Gone id h) (hk : h.Known)
    (hs : send ∈ h.broadcastImpl room payload exclude isBinary isOpen) : send.member.id ≠ id := by
  rintro rfl
  rw [WsHub.broadcastImpl] at hs
  cases hr : h.rooms room with
  | none =>
    rw [hr] at hs
    cases hs
  | some members =>
    rw [hr] at hs
    obtain ⟨m, hm, rfl⟩ := List.mem_map.1 hs
    exact hg.unlisted hk room ⟨members, hr, List.mem_map_of_mem (List.mem_filter.1 hm).1⟩

theorem Gone.sends (hg : Gone id h) (hk : h.Known) (op : Op) (hs : send ∈ h.sends op) :
    send.member.id ≠ id := by
  cases op with
  | add | remove | join | leave => cases hs
  | broadcast | broadcastBinary => exact hg.broadcastImpl hk hs
  | broadcastAll message exclude isOpen =>
    obtain ⟨i, -, hi⟩ := List.mem_filterMap.1 hs
    rintro rfl
    cases he : h.connections i with
    | none =>
      rw [he] at hi
      cases hi
    | some entry =>
      rw [he] at hi
      dsimp only at hi
      split at hi
      · cases hi
        rw [hg.unregistered] at he
        cases he
      · cases hi
  | sendTo i message isOpen =>
    rintro rfl
    rw [WsHub.sends, WsHub.sendTo] at hs
    cases he : h.connections i with
    | none =>
      rw [he] at hs
      cases hs
    | some entry =>
      rw [he] at hs
      dsimp only at hs
      split at hs
      · have hnone := hg.unregistered
        rw [List.mem_singleton.1 hs, he] at hnone
        cases hnone
      · cases hs

/-- A connection that was removed is out for good, whatever calls follow, a second join of it or of others
among them: no room lists it, and no call starts a send to it. -/
theorem removed_for_good (before later : List Op) (hid : id < (run before).nextId) (op : Op) :
    let h := run (before ++ .remove id :: later)
    h.connections id = none ∧ (∀ room, ¬ h.lists room id) ∧ ∀ send ∈ h.sends op, send.member.id ≠ id := by
  intro h
  have hsane : (run before).Sane := by
    have hs := Runs.invariant (P := Sane) step {} before sane_empty (fun _ op _ hs => hs.step op) before.length
    rwa [List.take_length] at hs
  have hrun : h = later.foldl step ((run before).remove id) := List.foldl_append
  have hboth : Sane h ∧ Gone id h := by
    have hb := Runs.invariant (P := fun h => Sane h ∧ Gone id h) step ((run before).remove id) later
      ⟨hsane.step (.remove id), gone_remove hid⟩ (fun _ op _ hb => ⟨hb.1.step op, hb.2.step op⟩) later.length
    rwa [List.take_length, ← hrun] at hb
  obtain ⟨hsane, hgone⟩ := hboth
  exact ⟨hgone.unregistered, hgone.unlisted hsane.known, fun send hs => hgone.sends hsane.known op hs⟩

theorem removed_for_good_lobby :
    let h := run ([.add 7, .add 8, .join 1 "lobby", .join 1 "lobby", .join 2 "lobby"] ++ .remove 1 ::
      [.join 1 "lobby", .add 9, .join 3 "lobby"])
    (h.sends (.broadcast "lobby" [104] 0 fun _ => true)).map (fun send => send.member.id) = [2, 3] ∧
      ∀ send ∈ h.sends (.broadcastAll [104] 0 fun _ => true), send.member.id ≠ 1 :=
  ⟨by decide, (removed_for_good [.add 7, .add 8, .join 1 "lobby", .join 1 "lobby", .join 2 "lobby"]
    [.join 1 "lobby", .add 9, .join 3 "lobby"] (by decide) (.broadcastAll [104] 0 fun _ => true)).2.2⟩

end Removal

end WsHub

end Hical
