import Hical.SessionStore.Store

namespace Hical

namespace SessionManager

/-- The sessions that a call gets at. -/
def Op.refs : Op V → List Nat
  | .touch _ ref => [ref]
  | .set ref _ _ => [ref]
  | .remove ref _ => [ref]
  | .clear ref => [ref]
  | _ => []

/-- The ids that a call takes out of the store. -/
def Op.ids : Op V → List SessionId
  | .destroy id => [id]
  | .regenerate _ _ oldId => [oldId]
  | _ => []

end SessionManager

/-- An id that some session was ever made with. -/
def Issued (m : SessionManager V) (id : SessionId) : Prop := ∃ ref < m.made, (m.session ref).id = id

namespace SessionManager
open SessionManager.History
variable {V : Type} {m m' m'' : SessionManager V} {op : Op V} {id : SessionId} {ref now : Nat}
  {draws : List SessionId} {clock : CreateClock}

/-- Sessions stay under their ids, of which there are only more. -/
structure Grown (m m' : SessionManager V) : Prop where
  opts : m'.opts = m.opts
  made : m.made ≤ m'.made
  ids : ∀ ref < m.made, (m'.session ref).id = (m.session ref).id

theorem Grown.trans (h : Grown m m') (h' : Grown m' m'') : Grown m m'' where
  opts := h'.opts.trans h.opts
  made := Nat.le_trans h.made h'.made
  ids ref hr := (h'.ids ref (Nat.lt_of_lt_of_le hr h.made)).trans (h.ids ref hr)

theorem Grown.issued (h : Grown m m') (hid : Issued m id) : Issued m' id := by
  obtain ⟨ref, hr, rfl⟩ := hid
  exact ⟨ref, Nat.lt_of_lt_of_le hr h.made, h.ids ref hr⟩

theorem Shrunk.grown (h : Shrunk m m') : Grown m m' :=
  ⟨h.opts, Nat.le_of_eq h.made.symm, fun _ _ => by rw [h.session]⟩

theorem grown_file (m : SessionManager V) (s : Session V) : Grown m (m.file s) where
  opts := rfl
  made := Nat.le_succ _
  ids _ hr := congrArg Session.id (Function.update_of_ne (Nat.ne_of_lt hr) ..)

theorem grown_update (m : SessionManager V) (ref : Nat) (s : Session V) (hs : s.id = (m.session ref).id) :
    Grown m { m with session := Function.update m.session ref s } where
  opts := rfl
  made := Nat.le_refl _
  ids r _ := by
    dsimp only
    by_cases hr : r = ref
    · rw [hr, Function.update_self, hs]
    · rw [Function.update_of_ne hr]

theorem grown_onSession (m : SessionManager V) (f : Session V → Session V)
    (hf : (f (m.session ref)).id = (m.session ref).id) : Grown m (m.onSession ref f) := by
  rw [onSession]
  split
  · exact grown_update m ref _ hf
  · exact Shrunk.grown (.refl m)

theorem regenerate_cases (m : SessionManager V) (now : Nat) (draws : List SessionId) (oldId : SessionId) :
    (m.store.lookup oldId = none ∧ m.regenerate now draws oldId = (m, .ok none)) ∨
      (∃ ref, m.store.lookup oldId = some ref) ∧
        (m.regenerate now draws oldId = (m.destroy oldId, .error randFailed) ∨
          ∃ ref newId, m.store.lookup oldId = some ref ∧ newId ∈ draws ∧
            m.regenerate now draws oldId =
              ({ m.destroy oldId with
                  session := Function.update m.session ref (m.session ref).clear }.file
                { id := newId, data := (m.session ref).data, dirty := true, lastAccess := now },
                .ok (some m.made))) := by
  cases hl : m.store.lookup oldId with
  | none => exact .inl ⟨rfl, regenerate_none now draws hl⟩
  | some ref =>
    refine .inr ⟨⟨ref, rfl⟩, ?_⟩
    have hr := regenerate_some now draws hl
    cases hd : (m.destroy oldId).freshId draws with
    | none =>
      rw [hd] at hr
      exact .inl hr
    | some newId =>
      rw [hd] at hr
      exact .inr ⟨ref, newId, rfl, mem_draws hd, hr⟩

theorem grown_regenerate (m : SessionManager V) (now : Nat) (draws : List SessionId) (oldId : SessionId) :
    Grown m (m.regenerate now draws oldId).1 := by
  rcases regenerate_cases m now draws oldId with ⟨-, h⟩ | ⟨-, h | ⟨ref, newId, -, -, h⟩⟩
  · rw [h]
    exact Shrunk.grown (.refl m)
  · rw [h]
    exact (shrunk_destroy m oldId).grown
  · rw [h]
    have hcleared := grown_update (m.destroy oldId) ref (m.session ref).clear rfl
    exact ((shrunk_destroy m oldId).grown.trans hcleared).trans (grown_file ..)

theorem grown_create (m : SessionManager V) (clock : CreateClock) (draws : List SessionId) :
    Grown m (m.create clock draws).1 := by
  obtain ⟨m₁, hs, (h | h) | ⟨id, -, h, -⟩⟩ := create_cases m clock draws
  · rw [h]
    exact hs.grown
  · rw [h]
    exact hs.grown
  · rw [h]
    exact hs.grown.trans (grown_file ..)

theorem grown_apply (m : SessionManager V) (op : Op V) : Grown m (op.apply m) := by
  cases op with
  | create clock draws => exact grown_create m clock draws
  | find now id => exact Shrunk.grown (.refl m)
  | touch now ref => exact grown_onSession m (fun s => s.touch now) rfl
  | destroy id => exact (shrunk_destroy m id).grown
  | regenerate now draws oldId => exact grown_regenerate m now draws oldId
  | gc now force => exact (shrunk_gc m now force).grown
  | set ref key value => exact grown_onSession m (fun s => s.set key value) rfl
  | remove ref key => exact grown_onSession m (fun s => s.remove key) rfl
  | clear ref => exact grown_onSession m Session.clear rfl

theorem store_onSession (m : SessionManager V) (f : Session V → Session V) :
    (m.onSession ref f).store = m.store := by
  rw [onSession]
  split
  · rfl
  · rfl

theorem session_onSession (m : SessionManager V) (f : Session V → Session V) (hr : ref < m.made) :
    (m.onSession ref f).session = Function.update m.session ref (f (m.session ref)) := by
  rw [onSession, if_pos hr]

theorem session_onSession_ne (m : SessionManager V) (f : Session V → Session V) (hr : ref' ≠ ref) :
    (m.onSession ref f).session ref' = m.session ref' := by
  rw [onSession]
  split
  · exact Function.update_of_ne hr ..
  · rfl

theorem store_apply (op : Op V) {e : SessionId × Nat} (he : e ∈ (op.apply m).store) :
    e ∈ m.store ∨ e.1 ∈ op.draws := by
  cases op with
  | create clock draws =>
    dsimp only [Op.apply] at he
    obtain ⟨m₁, hs, (h | h) | ⟨id, hid, h, -⟩⟩ := create_cases m clock draws
    · rw [h] at he
      exact .inl (hs.store.subset he)
    · rw [h] at he
      exact .inl (hs.store.subset he)
    · rw [h] at he
      rcases List.mem_cons.1 he with rfl | he
      · exact .inr (mem_draws hid)
      · exact .inl (hs.store.subset he)
  | regenerate now draws oldId =>
    dsimp only [Op.apply] at he
    rcases regenerate_cases m now draws oldId with ⟨-, h⟩ | ⟨-, h | ⟨ref, newId, -, hid, h⟩⟩
    · rw [h] at he
      exact .inl he
    · rw [h] at he
      exact .inl (List.mem_filter.1 he).1
    · rw [h] at he
      rcases List.mem_cons.1 he with rfl | he
      · exact .inr hid
      · exact .inl (List.mem_filter.1 he).1
  | find now id => exact .inl he
  | touch now ref | set ref key value | remove ref key | clear ref => exact .inl (store_onSession m _ ▸ he)
  | destroy id => exact .inl (List.mem_filter.1 he).1
  | gc now force => exact .inl ((shrunk_gc m now force).store.subset he)

/-- An id that is not in the store any more. -/
def Retired (m : SessionManager V) (id : SessionId) : Prop := Issued m id ∧ id ∉ m.store.map Prod.fst

theorem Retired.find (h : Retired m id) (now : Nat) : m.find now id = none := by
  have hl : m.store.lookup id = none := by
    rw [← Option.isNone_iff_eq_none, ← Option.isSome_eq_false_iff, ← Bool.not_eq_true, isSome_lookup]
    exact h.2
  rw [SessionManager.find, hl]

theorem Retired.apply (h : Retired m id) (op : Op V) (hf : ∀ id ∈ op.draws, ¬ Issued m id) :
    Retired (op.apply m) id := by
  refine ⟨(grown_apply m op).issued h.1, fun hin => ?_⟩
  obtain ⟨e, he, rfl⟩ := List.mem_map.1 hin
  rcases store_apply op he with he | hd
  · exact h.2 (List.mem_map_of_mem he)
  · exact hf e.1 hd h.1

/-- Sessions are filed under their own ids, which differ. -/
def Filed (m : SessionManager V) : Prop :=
  ∃ issued, Ok m 0 issued [] ∧ ∀ id ∈ issued, Issued m id

theorem Filed.lookup (h : Filed m) : m.store.lookup id = some ref ↔ (id, ref) ∈ m.store := by
  obtain ⟨issued, hok, -⟩ := h
  exact hok.lookup

theorem Filed.made (h : Filed m) (hl : (id, ref) ∈ m.store) : ref < m.made ∧ (m.session ref).id = id := by
  obtain ⟨issued, hok, -⟩ := h
  exact ⟨hok.made _ hl, hok.filed _ hl⟩

theorem Filed.shrink (h : Filed m) (hs : Shrunk m m') : Filed m' := by
  obtain ⟨issued, hok, hall⟩ := h
  exact ⟨issued, hok.shrink hs, fun id hid => hs.grown.issued (hall id hid)⟩

theorem Filed.file (h : Filed m) (s : Session V) (hs : ¬ Issued m s.id)
    (hroom : 0 < m.opts.maxSessions → m.store.length < m.opts.maxSessions) : Filed (m.file s) := by
  obtain ⟨issued, hok, hall⟩ := h
  refine ⟨s.id :: issued, hok.file s (fun hin => hs (hall _ hin)) hroom, fun id hid => ?_⟩
  rcases List.mem_cons.1 hid with rfl | hid
  · exact ⟨m.made, Nat.lt_succ_self _, congrArg Session.id (session_file m s)⟩
  · exact (grown_file m s).issued (hall id hid)

theorem Filed.update (h : Filed m) (ref : Nat) (s : Session V) (hs : s.id = (m.session ref).id) :
    Filed { m with session := Function.update m.session ref s } := by
  obtain ⟨issued, hok, hall⟩ := h
  refine ⟨issued, hok.update ref s hs (.inr fun e _ _ => List.not_mem_nil), fun id hid => ?_⟩
  exact (grown_update m ref s hs).issued (hall id hid)

theorem Filed.onSession (h : Filed m) (f : Session V → Session V)
    (hf : (f (m.session ref)).id = (m.session ref).id) : Filed (m.onSession ref f) := by
  rw [SessionManager.onSession]
  split
  · exact h.update ref _ hf
  · exact h

theorem Filed.apply (h : Filed m) (op : Op V) (hf : ∀ id ∈ op.draws, ¬ Issued m id) : Filed (op.apply m) := by
  cases op with
  | create clock draws =>
    dsimp only [Op.apply]
    obtain ⟨m₁, hs, (hc | hc) | ⟨id, hid, hc, hroom⟩⟩ := create_cases m clock draws
    · rw [hc]
      exact h.shrink hs
    · rw [hc]
      exact h.shrink hs
    · rw [hc]
      refine (h.shrink hs).file { id, lastAccess := clock.made } (fun hin => hf id (mem_draws hid) ?_) ?_
      · obtain ⟨ref, hr, heq⟩ := hin
        rw [hs.made] at hr
        rw [hs.session] at heq
        exact ⟨ref, hr, heq⟩
      · rw [hs.opts]
        exact hroom
  | regenerate now draws oldId =>
    dsimp only [Op.apply]
    rcases regenerate_cases m now draws oldId with ⟨-, hc⟩ | ⟨-, hc | ⟨ref, newId, hl, hid, hc⟩⟩
    · rw [hc]
      exact h
    · rw [hc]
      exact h.shrink (shrunk_destroy m oldId)
    · rw [hc]
      have hd := h.shrink (shrunk_destroy m oldId)
      refine (hd.update ref (m.session ref).clear rfl).file _ (fun hin => hf newId hid ?_) fun hmax => ?_
      · obtain ⟨r, hr, heq⟩ := hin
        have hcleared := grown_update (m.destroy oldId) ref (m.session ref).clear rfl
        exact ⟨r, hr, (hcleared.ids r hr).symm.trans heq⟩
      · obtain ⟨issued, hok, -⟩ := h
        have hlt : (m.destroy oldId).store.length < m.store.length :=
          List.length_filter_lt_length_iff_exists.2 ⟨(oldId, ref), hok.lookup.1 hl, by simp⟩
        exact Nat.lt_of_lt_of_le hlt (hok.bounded hmax)
  | find now id => exact h
  | touch now ref => exact h.onSession (fun s => s.touch now) rfl
  | destroy id => exact h.shrink (shrunk_destroy m id)
  | gc now force => exact h.shrink (shrunk_gc m now force)
  | set ref key value => exact h.onSession (fun s => s.set key value) rfl
  | remove ref key => exact h.onSession (fun s => s.remove key) rfl
  | clear ref => exact h.onSession Session.clear rfl

theorem mem_gc {e : SessionId × Nat} (he : e ∈ m.store) (hx : m.expired now e.2 = false) :
    e ∈ (m.gc now force).store := by
  rw [gc]
  split
  · exact he
  · refine List.mem_filter.2 ⟨he, ?_⟩
    rw [hx]
    rfl

theorem mem_createNew {e : SessionId × Nat} (he : e ∈ m.store) : e ∈ (m.createNew now draws).1.store := by
  rcases createNew_cases m now draws with ⟨h, -⟩ | ⟨id, -, h⟩
  · rw [h]
    exact he
  · rw [h]
    exact List.mem_cons_of_mem _ he

theorem mem_create {e : SessionId × Nat} (he : e ∈ m.store)
    (hx : ∀ now ∈ [clock.asked, clock.collected, clock.forced, clock.made], m.expired now e.2 = false) :
    e ∈ (m.create clock draws).1.store := by
  rw [create]
  generalize hm₁ : (if 0 < m.opts.gcInterval ∧ m.gcDue clock.asked then m.gc clock.collected false else m) = m₁
  have hs : Shrunk m m₁ ∧ e ∈ m₁.store := by
    rw [← hm₁]
    split
    · exact ⟨shrunk_gc m clock.collected false, mem_gc he (hx _ (by simp))⟩
    · exact ⟨.refl m, he⟩
  dsimp only
  split
  · have he₂ : e ∈ (m₁.gc clock.forced true).store := by
      refine mem_gc hs.2 ?_
      rw [hs.1.expired]
      exact hx _ (by simp)
    split
    · exact he₂
    · exact mem_createNew he₂
  · exact mem_createNew hs.2

theorem session_create (hr : ref < m.made) : (m.create clock draws).1.session ref = m.session ref := by
  obtain ⟨m₁, hs, (h | h) | ⟨id, -, h, -⟩⟩ := create_cases m clock draws
  · rw [h, hs.session]
  · rw [h, hs.session]
  · rw [h, ← hs.session]
    exact Function.update_of_ne (hs.made ▸ Nat.ne_of_lt hr) ..

theorem Filed.keeps (h : Filed m) (he : (id, ref) ∈ m.store) (op : Op V) (hr : ref ∉ op.refs) (hid : id ∉ op.ids)
    (hx : ∀ now ∈ op.readings, m.expired now ref = false) :
    (id, ref) ∈ (op.apply m).store ∧ (op.apply m).session ref = m.session ref := by
  have hmade := h.made he
  cases op with
  | create clock draws => exact ⟨mem_create he hx, session_create hmade.1⟩
  | find now id' => exact ⟨he, rfl⟩
  | touch now ref' | set ref' key value | remove ref' key | clear ref' =>
    exact ⟨(store_onSession m _).symm ▸ he, session_onSession_ne m _ (List.ne_of_not_mem_cons hr)⟩
  | gc now force =>
    exact ⟨mem_gc he (hx now (List.mem_singleton.2 rfl)), congrFun (shrunk_gc m now force).session ref⟩
  | destroy id' =>
    have hne : id ≠ id' := List.ne_of_not_mem_cons hid
    exact ⟨List.mem_filter.2 ⟨he, by simpa using hne⟩, rfl⟩
  | regenerate now draws oldId =>
    have hne : id ≠ oldId := List.ne_of_not_mem_cons hid
    have hleft : (id, ref) ∈ (m.destroy oldId).store := List.mem_filter.2 ⟨he, by simpa using hne⟩
    dsimp only [Op.apply]
    rcases regenerate_cases m now draws oldId with ⟨-, hc⟩ | ⟨-, hc | ⟨ref', newId, hl, -, hc⟩⟩
    · rw [hc]
      exact ⟨he, rfl⟩
    · rw [hc]
      exact ⟨hleft, rfl⟩
    · rw [hc]
      refine ⟨List.mem_cons_of_mem _ hleft, ?_⟩
      have hother : ref ≠ ref' := by
        rintro rfl
        exact hne (hmade.2.symm.trans (h.made (h.lookup.1 hl)).2)
      calc Function.update (Function.update m.session ref' (m.session ref').clear) m.made _ ref
        _ = Function.update m.session ref' (m.session ref').clear ref :=
          Function.update_of_ne (Nat.ne_of_lt hmade.1) ..
        _ = m.session ref := Function.update_of_ne hother ..

theorem retired_destroy (hid : Issued m id) : Retired (m.destroy id) id := by
  refine ⟨(shrunk_destroy m id).grown.issued hid, fun hin => ?_⟩
  obtain ⟨e, he, rfl⟩ := List.mem_map.1 hin
  have hne := (List.mem_filter.1 he).2
  simp at hne

theorem retired_regenerate (hid : Issued m id) (hl : m.store.lookup id = some ref) (hd : id ∉ draws) :
    Retired (m.regenerate now draws id).1 id := by
  have hleft := retired_destroy hid
  rcases regenerate_cases m now draws id with ⟨hnone, -⟩ | ⟨-, hc | ⟨ref', newId, -, hnew, hc⟩⟩
  · rw [hl] at hnone
    cases hnone
  · rw [hc]
    exact hleft
  · refine ⟨(grown_regenerate m now draws id).issued hid, ?_⟩
    rw [hc]
    intro hin
    rcases List.mem_cons.1 hin with heq | hin
    · have heq : id = newId := heq
      exact hd (heq ▸ hnew)
    · exact hleft.2 hin

/-- An id that has left the store finds nothing any more, whatever the clock says and is done to its session. -/
theorem gone_forever (h : Retired m id) (ops : List (Op V))
    (hf : Runs.Along (fun m op => op.apply m) (fun m op => ∀ id ∈ op.draws, ¬ Issued m id) m ops) (n now : Nat) :
    ((ops.take n).foldl (fun m op => op.apply m) m).find now id = none := by
  have hgone := hf.invariant (I := fun m => Retired m id) h fun _ op h hd => h.apply op hd
  exact (hgone n).find now

section Examples

instance : Decidable (Issued m id) :=
  inferInstanceAs (Decidable (∃ ref < m.made, (m.session ref).id = id))

/-- The one who holds a destroyed session uses it, while another one is made, renamed and collected. -/
def laterCalls : List (Op Nat) :=
  [.touch 9 0, .create ⟨9, 9, 9, 9⟩ ["b"], .set 0 "user" 7, .regenerate 10 ["c", "d"] "b", .gc 4000000000000 true]

theorem gone_forever_renamed :
    (laterCalls.foldl (fun m op => op.apply m)
      ((file {} { id := "a", lastAccess := 0 }).destroy "a")).find 4000000000001 "a" = none :=
  gone_forever (retired_destroy ⟨0, by decide, rfl⟩) laterCalls (by decide +kernel) 5 4000000000001

end Examples

end SessionManager

end Hical
