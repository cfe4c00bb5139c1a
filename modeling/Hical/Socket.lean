import Hical.Bytes

namespace Hical

/-- One read of at most `cap` bytes: what the peer sent arrives in pieces, and a piece that does
not fit is left for the next read. Nothing is left when the peer has closed. -/
def readSome (cap : Nat) : List Bytes → Option (Bytes × List Bytes)
  | [] => none
  | [] :: inbox => readSome cap inbox
  | (b :: bs) :: inbox =>
    if (b :: bs).length ≤ cap then some (b :: bs, inbox)
    else some ((b :: bs).take cap, (b :: bs).drop cap :: inbox)

theorem readSome_none (h : readSome cap inbox = none) : inbox.flatten = [] := by
  induction inbox with
  | nil => rfl
  | cons seg inbox ih =>
    cases seg with
    | nil => exact ih h
    | cons b bs =>
      rw [readSome] at h
      split at h <;> cases h

theorem readSome_flatten (h : readSome cap inbox = some (got, inbox')) :
    inbox.flatten = got ++ inbox'.flatten := by
  induction inbox with
  | nil => cases h
  | cons seg inbox ih =>
    cases seg with
    | nil => exact ih h
    | cons b bs =>
      rw [readSome] at h
      split at h
      · obtain ⟨rfl, rfl⟩ := Prod.mk.inj (Option.some.inj h)
        rfl
      · obtain ⟨rfl, rfl⟩ := Prod.mk.inj (Option.some.inj h)
        rw [List.flatten_cons, List.flatten_cons, ← List.append_assoc, List.take_append_drop]

theorem readSome_length (h : readSome cap inbox = some (got, inbox')) (hc : 0 < cap) :
    0 < got.length ∧ got.length ≤ cap := by
  induction inbox with
  | nil => cases h
  | cons seg inbox ih =>
    cases seg with
    | nil => exact ih h
    | cons b bs =>
      rw [readSome] at h
      split at h
      · next hl =>
        obtain ⟨rfl, rfl⟩ := Prod.mk.inj (Option.some.inj h)
        exact ⟨by simp, hl⟩
      · next hl =>
        obtain ⟨rfl, rfl⟩ := Prod.mk.inj (Option.some.inj h)
        rw [List.length_take]
        omega

end Hical
