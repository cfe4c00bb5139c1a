import Mathlib.Data.List.GetD
import Hical.Router.Segments

namespace Hical

/-- The array of captured views. A slot holds nothing until it is written. -/
structure Captures where
  slots : Vector (Option (Bytes × Bytes)) kMaxPathSegments
  captureCount : Nat

def Captures.uninitialized : Captures := ⟨.replicate kMaxPathSegments none, 0⟩

/-- `captures[captureCount++] = capture`, which has no meaning outside the array. -/
def Captures.push (c : Captures) (capture : Bytes × Bytes) : Option Captures :=
  if h : c.captureCount < kMaxPathSegments then
    some ⟨c.slots.set c.captureCount (some capture) h, c.captureCount + 1⟩
  else none

/-- The copies of the first `captureCount` slots. -/
def Captures.read (c : Captures) : Option ParamList :=
  (List.range c.captureCount).mapM fun i => (c.slots[i]?).join

inductive Segmentwise where
  | undefined
  | differs
  | matched (captures : Captures)

/-- The segment loop, with the array it writes when the caller wants the parameters. -/
def Captures.walk (wanted : Bool) : Nat → Bytes → Bytes → Captures → Segmentwise
  | budget, pattern, path, captures =>
    if pattern = [] ∨ path = [] then
      if pattern = [] ∧ path = [] then .matched captures else .differs
    else match budget with
      | 0 => .differs
      | budget + 1 =>
        let patSeg := (cut slash pattern).1
        let reqSeg := (cut slash path).1
        let pattern := ((cut slash pattern).2).getD []
        let path := ((cut slash path).2).getD []
        if isParamSegment patSeg then
          if kMaxParamValueLength < reqSeg.length then .differs
          else if wanted then
            match captures.push (patSeg.tail.dropLast, reqSeg) with
            | none => .undefined
            | some captures => walk wanted budget pattern path captures
          else walk wanted budget pattern path captures
        else if patSeg ≠ reqSeg then .differs
        else walk wanted budget pattern path captures

def Captures.matchParamPath (pattern path : Bytes) (params : Option ParamList) :
    Option (Bool × Option ParamList) :=
  let params := params.map fun _ => []
  match Captures.walk params.isSome kMaxPathSegments (dropSlash pattern) (dropSlash path)
      .uninitialized with
  | .undefined => none
  | .differs => some (false, params)
  | .matched captures =>
    if params.isSome then captures.read.map fun list => (true, some list) else some (true, none)

/-- The array holds these captures in its first slots. -/
structure Captures.Holds (c : Captures) (list : ParamList) : Prop where
  count : c.captureCount = list.length
  slots : ∀ i (h : i < list.length), c.slots[i]? = some (some list[i])

theorem Captures.uninitialized_holds : uninitialized.Holds [] :=
  ⟨rfl, fun _ h => (nomatch h)⟩

theorem Captures.Holds.push (h : Captures.Holds c list) (room : list.length < kMaxPathSegments)
    (capture : Bytes × Bytes) :
    ∃ c', c.push capture = some c' ∧ c'.Holds (list ++ [capture]) := by
  have hcount : c.captureCount < kMaxPathSegments := by
    rw [h.count]
    exact room
  refine ⟨_, dif_pos hcount, ?_, fun i hi => ?_⟩
  · rw [List.length_append, ← h.count]
    rfl
  · rw [List.length_append] at hi
    dsimp only
    rcases Nat.lt_succ_iff_lt_or_eq.1 hi with hlt | rfl
    · rw [List.getElem_append_left hlt, Vector.getElem?_set_ne _ (by rw [h.count]; omega)]
      exact h.slots i hlt
    · simp only [h.count, Vector.getElem?_set_self, List.getElem_concat_length]

theorem mapM_eq_some {f : α → Option β} {g : α → β} {l : List α} (h : ∀ a ∈ l, f a = some (g a)) :
    l.mapM f = some (l.map g) := by
  induction l with
  | nil => rfl
  | cons a l ih =>
    rw [List.mapM_cons, h a List.mem_cons_self, ih fun b hb => h b (List.mem_cons_of_mem _ hb)]
    rfl

theorem Captures.Holds.read (h : Captures.Holds c list) : c.read = some list := by
  have hslots : ∀ i ∈ List.range c.captureCount, (c.slots[i]?).join = some (list.getD i ([], [])) := by
    intro i hi
    have hlt : i < list.length := by
      rw [← h.count]
      exact List.mem_range.1 hi
    rw [h.slots i hlt, List.getD_eq_getElem _ _ hlt]
    rfl
  rw [Captures.read, mapM_eq_some hslots, h.count]
  congr 1
  apply List.ext_getElem
  · rw [List.length_map, List.length_range]
  · intro i _ hlt
    rw [List.getElem_map, List.getElem_range, List.getD_eq_getElem _ _ hlt]

/-- The loop's outcome beside the list-level answer: `list` was captured before it. -/
def Segmentwise.Agrees (wanted : Bool) (list : ParamList) (r : Segmentwise) :
    Option ParamList → Prop
  | none => r = .differs
  | some params => ∃ c, r = .matched c ∧ c.Holds (if wanted then list ++ params else list)

/-- The loop stays inside the array: it holds at most one capture for each segment passed. -/
theorem Captures.walk_agrees (wanted : Bool) (h : Captures.Holds c list)
    (room : list.length + budget ≤ kMaxPathSegments) :
    (walk wanted budget pattern path c).Agrees wanted list (matchSegments budget pattern path) := by
  fun_induction matchSegments budget pattern path generalizing c list
  case case1 budget pattern path hend hboth =>
    rw [walk.eq_def]
    dsimp only
    rw [if_pos hend, if_pos hboth]
    refine ⟨c, rfl, ?_⟩
    rw [List.append_nil, ite_self]
    exact h
  case case2 budget pattern path hend hone =>
    rw [walk.eq_def]
    dsimp only
    rw [if_pos hend, if_neg hone]
    rfl
  case case3 pattern path hgoes =>
    rw [walk.eq_def]
    dsimp only
    rw [if_neg hgoes]
    rfl
  case case4 pattern path hgoes budget patSeg reqSeg hparam hlong =>
    rw [walk.eq_def]
    dsimp only
    rw [if_neg hgoes, if_pos hparam, if_pos hlong]
    rfl
  case case5 pattern path hgoes budget patSeg reqSeg pattern' path' hparam hshort ih =>
    rw [walk.eq_def]
    dsimp only
    rw [if_neg hgoes, if_pos hparam, if_neg hshort]
    cases wanted with
    | true =>
      obtain ⟨c', hpush, hc'⟩ := h.push (by omega) (patSeg.tail.dropLast, reqSeg)
      have hrest := ih hc' (by rw [List.length_append, List.length_singleton]; omega)
      rw [if_pos rfl, hpush]
      dsimp only
      cases hmatch : matchSegments budget pattern' path' with
      | none =>
        rw [hmatch] at hrest
        exact hrest
      | some params =>
        rw [hmatch] at hrest
        obtain ⟨c'', hwalk, hheld⟩ := hrest
        refine ⟨c'', hwalk, ?_⟩
        rw [if_pos rfl, List.append_assoc] at hheld
        exact hheld
    | false =>
      have hrest := ih h (by omega)
      rw [if_neg Bool.false_ne_true]
      cases hmatch : matchSegments budget pattern' path' with
      | none | some params =>
        rw [hmatch] at hrest
        exact hrest
  case case6 pattern path hgoes budget patSeg reqSeg hparam hne =>
    rw [walk.eq_def]
    dsimp only
    rw [if_neg hgoes, if_neg hparam, if_pos hne]
    rfl
  case case7 pattern path hgoes budget patSeg reqSeg pattern' path' hparam heq ih =>
    rw [walk.eq_def]
    dsimp only
    rw [if_neg hgoes, if_neg hparam, if_neg heq]
    exact ih h (by omega)

theorem Captures.matchParamPath_eq (pattern path : Bytes) (params : Option ParamList) :
    Captures.matchParamPath pattern path params =
      some ((Hical.matchParamPath pattern path).isSome,
        params.map fun _ => (Hical.matchParamPath pattern path).getD []) := by
  have h : (Captures.walk params.isSome kMaxPathSegments (dropSlash pattern) (dropSlash path)
      .uninitialized).Agrees params.isSome [] _ :=
    Captures.walk_agrees params.isSome Captures.uninitialized_holds (Nat.le_of_eq (Nat.zero_add _))
  rw [Captures.matchParamPath, Hical.matchParamPath, Option.isSome_map]
  cases hmatch : matchSegments kMaxPathSegments (dropSlash pattern) (dropSlash path) with
  | none =>
    rw [hmatch] at h
    have hdiffers : Captures.walk params.isSome _ _ _ _ = .differs := h
    rw [hdiffers]
    rfl
  | some found =>
    rw [hmatch] at h
    obtain ⟨c, hwalk, hc⟩ := h
    rw [hwalk]
    dsimp only
    cases params with
    | none => rfl
    | some params =>
      rw [Option.isSome_some] at hc ⊢
      rw [if_pos rfl, hc.read]
      rfl

/-- Parameter matching is segment-wise, and never leaves the capture array. -/
theorem Captures.matchParamPath_segmentwise (pattern path : Bytes) (params : ParamList) :
    ∃ matched out, Captures.matchParamPath pattern path (some params) = some (matched, some out) ∧
      Captures.matchParamPath pattern path none = some (matched, none) ∧
      (matched = true ↔ ∃ n ≤ 32, (segments pattern).length = n ∧ (segments path).length = n ∧
        ∀ e ∈ (segments pattern).zip (segments path),
          if isParamSegment e.1 then e.2.length ≤ 1024 else e.1 = e.2) ∧
      (matched = true → out = captured ((segments pattern).zip (segments path))) ∧
      (matched = false → out = []) := by
  refine ⟨_, _, Captures.matchParamPath_eq pattern path (some params),
    Captures.matchParamPath_eq pattern path none, ?_, fun h => ?_, fun h => ?_⟩
  · rw [matchParamPath_isSome, Fits, List.forall₂_iff_zip]
    constructor
    · rintro ⟨hlen, hsame, hfaces⟩
      exact ⟨_, hlen, rfl, hsame.symm, fun e he => hfaces he⟩
    · rintro ⟨n, hn, rfl, hsame, hfaces⟩
      exact ⟨hn, hsame.symm, fun he => hfaces _ he⟩
  · obtain ⟨found, hfound⟩ := Option.isSome_iff_exists.1 h
    rw [hfound, Option.getD_some]
    exact (matchParamPath_eq_some.1 hfound).2
  · rw [Option.isNone_iff_eq_none.1 (Option.isSome_eq_false_iff.1 h)]
    rfl

end Hical
