import Mathlib.Data.List.Basic

namespace Parse

/-- How far a parser came on the input it was given: it may be done with a part of it, have failed,
or have run out of input. -/
inductive Res (τ α : Type) where
  | done (a : α) (rest : List τ)
  | fail
  | more
  deriving DecidableEq, Repr

def Parser (τ α : Type) := List τ → Res τ α

section Combinators
variable {τ α β : Type}

def Parser.bind (p : Parser τ α) (f : α → Parser τ β) : Parser τ β := fun s =>
  match p s with
  | .done a rest => f a rest
  | .fail => .fail
  | .more => .more

instance : Monad (Parser τ) where
  pure a := fun s => .done a s
  bind := Parser.bind

def Parser.fail : Parser τ α := fun _ => .fail

/-- One token that passes the test. -/
def sat (P : τ → Bool) : Parser τ τ
  | [] => .more
  | b :: s => if P b then .done b s else .fail

/-- Look at the next token to choose how to go on. -/
def cond (P : τ → Bool) (p q : Parser τ α) : Parser τ α
  | [] => .more
  | b :: s => if P b then p (b :: s) else q (b :: s)

/-- The tokens that pass the test, then another parser at the first that does not. -/
def span (P : τ → Bool) (p : Parser τ α) : Parser τ (List τ × α)
  | [] => .more
  | b :: s =>
    if P b then
      match span P p s with
      | .done (w, a) rest => .done (b :: w, a) rest
      | .fail => .fail
      | .more => .more
    else (p >>= fun a => pure ([], a)) (b :: s)

/-- Wait until that many tokens are there. -/
def atLeast (n : Nat) (p : Parser τ α) : Parser τ α := fun s =>
  if s.length < n then .more else p s

end Combinators

section Incremental
variable {τ α β : Type} {G : List τ → α → Prop} {H : α → List τ → β → Prop}
  {N : List τ → β → Prop} {M : List τ → α → Prop}

/-- The parser reads what the grammar derives, it looks at most `k` tokens further without caring
what they are, and a failure stays one however the input goes on. -/
structure Reads (k : Nat) (G : List τ → α → Prop) (p : Parser τ α) : Prop where
  done : ∀ s a rest, p s = .done a rest → k ≤ rest.length ∧ ∃ c, s = c ++ rest ∧ G c a ∧
    ∀ r, k ≤ r.length → p (c ++ r) = .done a r
  fail : ∀ s t, p s = .fail → p (s ++ t) = .fail

theorem Reads.mono {p : Parser τ α} (h : Reads k G p) (hG : ∀ c a, G c a → M c a) :
    Reads k M p := by
  refine ⟨?_, h.fail⟩
  intro s a rest hs
  obtain ⟨hk, c, hc, hGc, hp⟩ := h.done s a rest hs
  exact ⟨hk, c, hc, hG c a hGc, hp⟩

theorem Reads.append {p : Parser τ α} (h : Reads k G p) (hs : p s = .done a rest) (t : List τ) :
    p (s ++ t) = .done a (rest ++ t) := by
  obtain ⟨hk, c, rfl, -, hp⟩ := h.done s a rest hs
  rw [List.append_assoc]
  apply hp
  rw [List.length_append]
  omega

/-- What was not there yet is found behind the old input only. -/
theorem Reads.rest_lt {p : Parser τ α} (h : Reads 0 G p) (hs : p (s ++ t) = .done a rest)
    (hp : ∀ b r, p s ≠ .done b r) : rest.length < t.length := by
  obtain ⟨-, c, hc, -, hr⟩ := h.done _ a rest hs
  rcases List.append_eq_append_iff.1 hc with ⟨u, -, ht⟩ | ⟨u, rfl, -⟩
  · cases u with
    | nil =>
      rw [ht, List.nil_append] at hs hc
      have := List.append_cancel_right hc
      subst this
      exact absurd (by simpa using hr [] (Nat.zero_le _)) (hp a [])
    | cons x u =>
      rw [ht, List.length_append, List.length_cons]
      omega
  · exact absurd (hr u (Nat.zero_le _)) (hp a u)

theorem Reads.pure (a : α) : Reads 0 (fun c b => c = ([] : List τ) ∧ b = a) (pure a) := by
  refine ⟨?_, ?_⟩
  · intro s b rest hs
    cases hs
    exact ⟨Nat.zero_le _, [], rfl, ⟨rfl, rfl⟩, fun r _ => rfl⟩
  · intro s t hs
    cases hs

theorem Reads.failing : Reads k G (Parser.fail : Parser τ α) := by
  refine ⟨?_, fun _ _ _ => rfl⟩
  intro s a rest hs
  cases hs

theorem bind_done {p : Parser τ α} {f : α → Parser τ β} (h : (p >>= f) s = .done b rest) :
    ∃ a mid, p s = .done a mid ∧ f a mid = .done b rest := by
  change Parser.bind p f s = _ at h
  unfold Parser.bind at h
  cases hp : p s with
  | done a mid =>
    rw [hp] at h
    exact ⟨a, mid, rfl, h⟩
  | fail =>
    rw [hp] at h
    cases h
  | more =>
    rw [hp] at h
    cases h

theorem bind_eq {p : Parser τ α} (f : α → Parser τ β) (h : p s = .done a mid) :
    (p >>= f) s = f a mid := by
  change Parser.bind p f s = _
  rw [Parser.bind, h]

theorem bind_fail {p : Parser τ α} {f : α → Parser τ β} (h : (p >>= f) s = .fail) :
    p s = .fail ∨ ∃ a mid, p s = .done a mid ∧ f a mid = .fail := by
  change Parser.bind p f s = _ at h
  unfold Parser.bind at h
  cases hp : p s with
  | done a mid =>
    rw [hp] at h
    exact .inr ⟨a, mid, rfl, h⟩
  | fail => exact .inl rfl
  | more =>
    rw [hp] at h
    cases h

theorem Reads.bind {p : Parser τ α} {f : α → Parser τ β} (hp : Reads k G p)
    (hf : ∀ a, Reads k' (H a) (f a)) (hk : ∀ a b v, H a v b → k ≤ v.length + k')
    (hN : ∀ a b u v, G u a → H a v b → N (u ++ v) b) : Reads k' N (p >>= f) := by
  refine ⟨?_, ?_⟩
  · intro s b rest hs
    obtain ⟨a, mid, ha, hb⟩ := bind_done hs
    obtain ⟨-, u, rfl, hG, hu⟩ := hp.done _ _ _ ha
    obtain ⟨hk', v, rfl, hH, hv⟩ := (hf a).done _ _ _ hb
    refine ⟨hk', u ++ v, (List.append_assoc _ _ _).symm, hN a b u v hG hH, ?_⟩
    intro r hr
    have hvr : k ≤ (v ++ r).length := by
      have := hk a b v hH
      rw [List.length_append]
      omega
    rw [List.append_assoc, bind_eq f (hu (v ++ r) hvr)]
    exact hv r hr
  · intro s t hs
    rcases bind_fail hs with h | ⟨a, mid, ha, hb⟩
    · change Parser.bind p f _ = _
      rw [Parser.bind, hp.fail s t h]
    · rw [bind_eq f (hp.append ha t)]
      exact (hf a).fail mid t hb

theorem Reads.seq {p : Parser τ α} {f : α → Parser τ β} (hp : Reads 0 G p)
    (hf : ∀ a, Reads k (H a) (f a)) (hN : ∀ a b u v, G u a → H a v b → N (u ++ v) b) :
    Reads k N (p >>= f) :=
  hp.bind hf (fun _ _ _ _ => Nat.zero_le _) hN

/-- A closed parser whose result is only passed on. -/
theorem Reads.map {p : Parser τ α} (hp : Reads k G p) (f : α → β)
    (hN : ∀ c a, G c a → N c (f a)) : Reads k N (p >>= fun a => Pure.pure (f a)) := by
  refine ⟨?_, ?_⟩
  · intro s b rest hs
    obtain ⟨a, mid, ha, he⟩ := bind_done hs
    cases he
    obtain ⟨hk, c, rfl, hG, hr⟩ := hp.done _ _ _ ha
    refine ⟨hk, c, rfl, hN c a hG, fun r hr' => ?_⟩
    rw [bind_eq _ (hr r hr')]
    rfl
  · intro s t hs
    rcases bind_fail hs with h | ⟨a, mid, -, he⟩
    · change Parser.bind p _ _ = _
      rw [Parser.bind, hp.fail s t h]
    · cases he

theorem sat_done (h : sat P s = .done a rest) : s = a :: rest ∧ P a = true := by
  cases s with
  | nil => cases h
  | cons b s =>
    rw [sat] at h
    split at h
    · next hb =>
      cases h
      exact ⟨rfl, hb⟩
    · cases h

theorem Reads.sat (P : τ → Bool) : Reads 0 (fun c b => c = [b] ∧ P b = true) (sat P) := by
  refine ⟨?_, ?_⟩
  · intro s b rest hs
    obtain ⟨rfl, hb⟩ := sat_done hs
    refine ⟨Nat.zero_le _, [b], rfl, ⟨rfl, hb⟩, fun r _ => ?_⟩
    rw [List.singleton_append, Parse.sat, if_pos hb]
  · intro s t hs
    cases s with
    | nil => cases hs
    | cons b s =>
      rw [Parse.sat] at hs
      split at hs
      · cases hs
      · next hb => rw [List.cons_append, Parse.sat, if_neg hb]

theorem Reads.cond {p q : Parser τ α} (hp : Reads k G p) (hq : Reads k G q)
    (hG : ∀ c a, G c a → c ≠ []) (P : τ → Bool) : Reads k G (cond P p q) := by
  refine ⟨?_, ?_⟩
  · intro s a rest hs
    cases s with
    | nil => cases hs
    | cons b s =>
      rw [Parse.cond] at hs
      split at hs
      · next hb =>
        obtain ⟨hk, c, hc, hGc, hr⟩ := hp.done _ _ _ hs
        refine ⟨hk, c, hc, hGc, fun r hr' => ?_⟩
        obtain ⟨x, c', rfl⟩ := List.exists_cons_of_ne_nil (hG c a hGc)
        cases hc
        rw [List.cons_append, Parse.cond, if_pos hb]
        exact hr r hr'
      · next hb =>
        obtain ⟨hk, c, hc, hGc, hr⟩ := hq.done _ _ _ hs
        refine ⟨hk, c, hc, hGc, fun r hr' => ?_⟩
        obtain ⟨x, c', rfl⟩ := List.exists_cons_of_ne_nil (hG c a hGc)
        cases hc
        rw [List.cons_append, Parse.cond, if_neg hb]
        exact hr r hr'
  · intro s t hs
    cases s with
    | nil => cases hs
    | cons b s =>
      rw [Parse.cond] at hs
      rw [List.cons_append, Parse.cond]
      split at hs
      · next hb =>
        rw [if_pos hb]
        exact hp.fail _ t hs
      · next hb =>
        rw [if_neg hb]
        exact hq.fail _ t hs

theorem span_cons (hb : P b = true) (p : Parser τ α) (s : List τ) :
    span P p (b :: s) = match span P p s with
      | .done (w, a) rest => .done (b :: w, a) rest
      | .fail => .fail
      | .more => .more := by
  rw [span, if_pos hb]

theorem span_stop (hb : P b = false) (p : Parser τ α) (s : List τ) :
    span P p (b :: s) = (p >>= fun a => pure ([], a)) (b :: s) := by
  rw [span, if_neg (Bool.not_eq_true _ ▸ hb)]

theorem span_replicate {p : Parser τ α} (hb : P b = true) (k : Nat) (h : span P p t = .done a rest) :
    span P p (List.replicate k b ++ t) = .done (List.replicate k b ++ a.1, a.2) rest := by
  induction k with
  | zero => exact h
  | succ k ih =>
    rw [List.replicate_succ, List.cons_append, span_cons hb, ih]
    rfl

theorem Reads.span {p : Parser τ α} (hp : Reads k G p) (hG : ∀ c a, G c a → c ≠ [])
    (P : τ → Bool) :
    Reads k (fun c w => ∃ v, c = w.1 ++ v ∧ (∀ b ∈ w.1, P b = true) ∧ G v w.2) (span P p) := by
  refine ⟨?_, ?_⟩
  · intro s
    induction s with
    | nil =>
      intro w rest hs
      cases hs
    | cons b s ih =>
      intro w rest hs
      cases hb : P b with
      | true =>
        rw [span_cons hb] at hs
        split at hs
        · next w' a' rest' hs' =>
          cases hs
          obtain ⟨hk, c, rfl, ⟨v, rfl, hw, hv⟩, hr⟩ := ih _ _ hs'
          refine ⟨hk, b :: (w' ++ v), rfl, ⟨v, rfl, ?_, hv⟩, fun r hr' => ?_⟩
          · intro x hx
            rcases List.mem_cons.1 hx with rfl | hx
            · exact hb
            · exact hw x hx
          · rw [List.cons_append, span_cons hb, hr r hr']
        · cases hs
        · cases hs
      | false =>
        rw [span_stop hb] at hs
        obtain ⟨a, mid, ha, he⟩ := bind_done hs
        cases he
        obtain ⟨hk, c, hc, hGc, hr⟩ := hp.done _ _ _ ha
        refine ⟨hk, c, hc, ⟨c, rfl, nofun, hGc⟩, fun r hr' => ?_⟩
        obtain ⟨x, c', rfl⟩ := List.exists_cons_of_ne_nil (hG c a hGc)
        cases hc
        rw [List.cons_append, span_stop hb, ← List.cons_append, bind_eq _ (hr r hr')]
        rfl
  · intro s t hs
    induction s with
    | nil => cases hs
    | cons b s ih =>
      cases hb : P b with
      | true =>
        rw [span_cons hb] at hs
        rw [List.cons_append, span_cons hb]
        split at hs
        · cases hs
        · next hs' => rw [ih hs']
        · cases hs
      | false =>
        rw [span_stop hb] at hs
        rw [List.cons_append, span_stop hb, ← List.cons_append]
        rcases bind_fail hs with h | ⟨a, mid, -, he⟩
        · change Parser.bind p _ _ = _
          rw [Parser.bind, hp.fail _ t h]
        · cases he

theorem Reads.atLeast {p : Parser τ α} (hp : Reads 0 G p) (hm : ∀ c a, G c a → c.length = m) :
    Reads (n - m) G (atLeast n p) := by
  refine ⟨?_, ?_⟩
  · intro s a rest hs
    rw [Parse.atLeast] at hs
    split at hs
    · cases hs
    · next h =>
      obtain ⟨-, c, rfl, hG, hr⟩ := hp.done s a rest hs
      have hc := hm c a hG
      rw [List.length_append] at h
      refine ⟨by omega, c, rfl, hG, fun r hr' => ?_⟩
      rw [Parse.atLeast, if_neg, hr r (Nat.zero_le _)]
      rw [List.length_append]
      omega
  · intro s t hs
    rw [Parse.atLeast] at hs
    split at hs
    · cases hs
    · next h =>
      rw [Parse.atLeast, if_neg, hp.fail s t hs]
      rw [List.length_append]
      omega

end Incremental

end Parse
