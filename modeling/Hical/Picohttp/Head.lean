import Hical.Picohttp.Request

namespace Hical
open Parse

/-- Every carriage return is followed by a line feed. -/
def LineSafe : Bytes → Prop
  | [] => True
  | b :: s => (b = CR → s.head? = some LF) ∧ LineSafe s

theorem lineSafe_of_not_mem (h : CR ∉ s) : LineSafe s := by
  induction s with
  | nil => trivial
  | cons b s ih =>
    refine ⟨fun hb => absurd (hb ▸ List.mem_cons_self) h, ?_⟩
    exact ih fun hs => h (List.mem_cons_of_mem _ hs)

theorem LineSafe.append (hs : LineSafe s) (ht : LineSafe t) : LineSafe (s ++ t) := by
  induction s with
  | nil => exact ht
  | cons b s ih =>
    refine ⟨fun hb => ?_, ih hs.2⟩
    have h := hs.1 hb
    cases s with
    | nil => cases h
    | cons c s => exact h

theorem LineSafe.right (h : LineSafe (s ++ t)) : LineSafe t := by
  induction s with
  | nil => exact h
  | cons b s ih => exact ih h.2

/-- The two ways a line may end. -/
def IsEol (e : Bytes) : Prop := e = [LF] ∨ e = crlf

theorem IsEol.lineSafe (h : IsEol e) : LineSafe e := by
  rcases h with rfl | rfl
  · exact ⟨fun h => absurd h (by decide), trivial⟩
  · exact ⟨fun _ => rfl, fun h => absurd h (by decide), trivial⟩

theorem IsEol.length (h : IsEol e) : 1 ≤ e.length ∧ e.length ≤ 2 := by
  rcases h with rfl | rfl <;> decide

def EndsLine (s : Bytes) : Prop := ∃ u e, s = u ++ e ∧ IsEol e

/-- The text ends a line and an empty line behind it. -/
def EndsHead (s : Bytes) : Prop := ∃ u e e', s = u ++ e ++ e' ∧ IsEol e ∧ IsEol e'

theorem EndsHead.prepend (u : Bytes) (h : EndsHead s) : EndsHead (u ++ s) := by
  obtain ⟨v, e, e', rfl, he, he'⟩ := h
  exact ⟨u ++ v, e, e', by simp only [List.append_assoc], he, he'⟩

theorem EndsLine.append_eol (h : EndsLine s) (he : IsEol e) : EndsHead (s ++ e) := by
  obtain ⟨u, e', rfl, he'⟩ := h
  exact ⟨u, e', e, rfl, he', he⟩

section Parts

/-- At least that many bytes, in which every carriage return belongs to a line end. -/
def Piece (n : Nat) (c : Bytes) : Prop := n ≤ c.length ∧ LineSafe c

theorem Piece.append (h : Piece m s) (h' : Piece n t) : Piece (m + n) (s ++ t) := by
  refine ⟨?_, h.2.append h'.2⟩
  rw [List.length_append]
  exact Nat.add_le_add h.1 h'.1

theorem Piece.ne_nil (h : Piece (n + 1) s) : s ≠ [] := by
  rintro rfl
  exact Nat.not_succ_le_zero _ h.1

theorem piece_of_not_mem (h : CR ∉ s) : Piece s.length s :=
  ⟨Nat.le_refl _, lineSafe_of_not_mem h⟩

theorem not_mem_of_forall {P : UInt8 → Bool} {w : Bytes} (h : ∀ b ∈ w, P b = true) (hP : P CR = false) :
    CR ∉ w := by
  intro hm
  have := h CR hm
  rw [hP] at this
  cases this

theorem reads_delim (c : UInt8) : Reads 0 (fun s (_ : UInt8) => s = [c]) (sat (· == c)) := by
  apply (Reads.sat _).mono
  rintro s a ⟨rfl, ha⟩
  rw [beq_iff_eq.1 ha]

theorem reads_eol : Reads 0 (fun c (_ : Unit) => IsEol c) eol := by
  apply Reads.cond
  · apply (reads_delim CR).seq (H := fun _ c (_ : Unit) => c = [LF])
    · intro _
      exact (reads_delim LF).map _ fun _ _ h => h
    · rintro _ _ _ _ rfl rfl
      exact .inr rfl
  · exact (reads_delim LF).map _ fun _ _ h => .inl h
  · rintro c _ (rfl | rfl) <;> decide

theorem reads_token (c : UInt8) (P : UInt8 → Bool) (hP : P CR = false) (hc : c ≠ CR) :
    Reads 0 (fun s a => Piece (a.length + 1) s ∧ s = a ++ [c])
      (span P (sat (· == c)) >>= fun token => pure token.1) := by
  apply (Reads.span (reads_delim c) _ P).map
  · rintro s ⟨w, a⟩ ⟨v, rfl, hw, rfl⟩
    have hn : CR ∉ w ++ [c] := by
      intro hm
      rcases List.mem_append.1 hm with hm | hm
      · exact not_mem_of_forall hw hP hm
      · exact hc (List.mem_singleton.1 hm).symm
    have hp := piece_of_not_mem hn
    rw [List.length_append] at hp
    exact ⟨hp, rfl⟩
  · rintro s a rfl
    exact List.cons_ne_nil _ _

theorem reads_getTokenToEol : Reads 0 (fun c (_ : Bytes) => Piece 1 c ∧ EndsLine c)
    getTokenToEol := by
  apply (Reads.span reads_eol _ _).map
  · rintro s ⟨w, a⟩ ⟨v, rfl, hw, hv⟩
    have hs := lineSafe_of_not_mem (not_mem_of_forall hw (by decide))
    refine ⟨⟨?_, hs.append hv.lineSafe⟩, w, v, rfl, hv⟩
    rw [List.length_append]
    exact Nat.le_add_left_of_le hv.length.1
  · rintro c _ (rfl | rfl) <;> decide

theorem reads_literal (l : Bytes) : Reads 0 (fun c (_ : Unit) => c = l) (literal l) := by
  induction l with
  | nil => exact (Reads.pure ()).mono fun _ _ h => h.1
  | cons b l ih =>
    apply (reads_delim b).seq (H := fun _ c (_ : Unit) => c = l)
    · intro _
      exact ih
    · rintro _ _ _ _ rfl rfl
      rfl

theorem reads_parseHttpVersion :
    Reads 1 (fun c (_ : Nat) => c.length = 8 ∧ Piece 8 c) parseHttpVersion := by
  apply Reads.atLeast (m := 8) (n := 9)
  · apply (reads_literal _).seq (H := fun _ c (_ : Nat) => c.length = 1 ∧ CR ∉ c)
    · intro _
      apply (Reads.sat _).map
      rintro c a ⟨rfl, ha⟩
      refine ⟨rfl, ?_⟩
      intro hm
      rw [← List.mem_singleton.1 hm] at ha
      cases ha
    · rintro _ _ _ v rfl ⟨hl, hn⟩
      have h8 : (bytes "HTTP/1." ++ v).length = 8 := by
        rw [List.length_append, hl]
        rfl
      refine ⟨h8, Nat.le_of_eq h8.symm, ?_⟩
      exact (lineSafe_of_not_mem (by decide)).append (lineSafe_of_not_mem hn)
  · rintro c _ ⟨h, -⟩
    exact h

def Line (c : Bytes) : Prop := Piece 1 c ∧ EndsLine c

theorem Line.prepend (hu : LineSafe u) (h : Line c) : Line (u ++ c) := by
  obtain ⟨⟨hl, hs⟩, v, e, rfl, he⟩ := h
  refine ⟨⟨?_, hu.append hs⟩, u ++ v, e, by rw [List.append_assoc], he⟩
  rw [List.length_append]
  exact Nat.le_add_left_of_le hl

theorem Line.ne_nil (h : Line c) : c ≠ [] := h.1.ne_nil

theorem reads_foldedLine : Reads 0 (fun c (_ : PhrHeader) => Line c) foldedLine :=
  reads_getTokenToEol.map _ fun _ _ h => h

theorem reads_fieldLine : Reads 0 (fun c (_ : PhrHeader) => Line c) fieldLine := by
  apply (reads_token 58 _ (by decide) (by decide)).seq (H := fun _ c (_ : PhrHeader) => Line c)
  · intro name
    split
    · exact .failing
    · apply (Reads.span reads_getTokenToEol (fun _ _ h => h.1.ne_nil) _).map
      rintro c ⟨w, a⟩ ⟨v, rfl, hw, hv⟩
      exact Line.prepend (lineSafe_of_not_mem (not_mem_of_forall hw (by decide))) hv
  · rintro name h u v ⟨hu, -⟩ hv
    exact hv.prepend hu.2

def HeaderLines (c : Bytes) : Prop := Piece 1 c ∧ (IsEol c ∨ EndsHead c)

theorem IsEol.headerLines (h : IsEol c) : HeaderLines c :=
  ⟨⟨h.length.1, h.lineSafe⟩, .inl h⟩

theorem Line.append_headerLines (hu : Line u) (hv : HeaderLines v) :
    Piece 2 (u ++ v) ∧ EndsHead (u ++ v) := by
  refine ⟨hu.1.append hv.1, ?_⟩
  rcases hv.2 with he | he
  · exact hu.2.append_eol he
  · exact he.prepend u

theorem reads_endOfHeaders :
    Reads 0 (fun c (_ : List PhrHeader) => HeaderLines c) (eol >>= fun _ => pure []) :=
  reads_eol.map (fun _ => []) fun _ _ h => h.headerLines

theorem reads_parseHeaders (left : Nat) (first : Bool) :
    Reads 0 (fun c (_ : List PhrHeader) => HeaderLines c) (parseHeaders left first) := by
  induction left generalizing first with
  | zero =>
    rw [parseHeaders]
    exact .cond reads_endOfHeaders .failing (fun _ _ h => h.1.ne_nil) _
  | succ left ih =>
    rw [parseHeaders]
    apply Reads.cond reads_endOfHeaders _ (fun _ _ h => h.1.ne_nil)
    apply (Reads.cond reads_foldedLine reads_fieldLine (fun _ _ h => h.ne_nil) _).seq
      (H := fun _ c (_ : List PhrHeader) => HeaderLines c)
    · intro h
      exact (ih false).map _ fun _ _ hc => hc
    · intro h hs u v hu hv
      obtain ⟨hp, he⟩ := hu.append_headerLines hv
      exact ⟨⟨Nat.le_of_succ_le hp.1, hp.2⟩, .inr he⟩

theorem reads_spaces {p : Parser UInt8 α} {n : α → Nat} {G : Bytes → α → Prop} (hp : Reads k G p)
    (hG : ∀ c a, G c a → Piece (n a + 1) c) :
    Reads k (fun c (a : Bytes × α) => Piece (n a.2 + 1) c) (span (· == SP) p) := by
  apply (Reads.span hp (fun c a h => (hG c a h).ne_nil) _).mono
  rintro c ⟨w, a⟩ ⟨v, rfl, hw, hv⟩
  have hs := lineSafe_of_not_mem (not_mem_of_forall hw (by decide))
  refine ⟨?_, hs.append (hG v a hv).2⟩
  rw [List.length_append]
  exact Nat.le_add_left_of_le (hG v a hv).1

theorem reads_headers (f : List PhrHeader → PhrRequest) :
    Reads 0 (fun c (_ : PhrRequest) => Piece 2 c ∧ EndsHead c)
      (eol >>= fun _ => parseHeaders maxHeaders true >>= fun headers => pure (f headers)) := by
  apply reads_eol.seq (H := fun _ c (_ : PhrRequest) => HeaderLines c)
  · intro _
    exact (reads_parseHeaders _ _).map f fun _ _ h => h
  · intro _ _ u v hu hv
    exact Line.append_headerLines ⟨⟨hu.length.1, hu.lineSafe⟩, [], u, rfl, hu⟩ hv

theorem reads_version (h : Prop) [Decidable h] :
    Reads 1 (fun c (_ : Bytes × Nat) => ¬h ∧ Piece 8 c)
      (span (· == SP) (if h then Parser.fail else parseHttpVersion)) := by
  by_cases hh : h
  · rw [if_pos hh]
    apply (Reads.span (G := fun _ _ => False) .failing (fun _ _ h => h.elim) _).mono
    rintro c a ⟨v, -, -, hf⟩
    exact hf.elim
  · rw [if_neg hh]
    apply (reads_spaces (n := fun _ => 7) reads_parseHttpVersion fun _ _ h => h.2).mono
    intro c a hc
    exact ⟨hh, hc⟩

/-- A head: at least as long as the shortest request line with an empty line behind it. -/
def IsHead (c : Bytes) : Prop := Piece 14 c ∧ EndsHead c

theorem reads_parseRequestLine : Reads 0 (fun c (_ : PhrRequest) => IsHead c) parseRequestLine := by
  apply (reads_token SP _ (by decide) (by decide)).seq
    (H := fun method c (_ : PhrRequest) => method ≠ [] ∧ Piece 12 c ∧ EndsHead c)
  · intro method
    apply (reads_spaces (n := List.length) (reads_token SP _ (by decide) (by decide))
      (fun _ _ h => h.1)).seq (H := fun path c (_ : PhrRequest) =>
        ¬(method = [] ∨ path.2 = []) ∧ Piece 10 c ∧ EndsHead c)
    · intro path
      apply (reads_version _).bind (fun minorVersion => reads_headers _)
      · rintro _ _ v ⟨hv, -⟩
        exact Nat.le_of_succ_le hv.1
      · rintro _ _ u v ⟨hne, hu⟩ ⟨hv, he⟩
        exact ⟨hne, hu.append hv, he.prepend u⟩
    · rintro path _ u v hu ⟨hne, hv, he⟩
      have hp : 1 ≤ path.2.length := List.length_pos_iff.2 fun h => hne (.inr h)
      refine ⟨fun h => hne (.inl h), ?_, he.prepend u⟩
      obtain ⟨hl, hs⟩ := hu.append hv
      exact ⟨by omega, hs⟩
  · rintro method _ u v ⟨hu, -⟩ ⟨hne, hv, he⟩
    have hm : 1 ≤ method.length := List.length_pos_iff.2 hne
    obtain ⟨hl, hs⟩ := hu.append hv
    exact ⟨⟨by omega, hs⟩, he.prepend u⟩

theorem reads_parseRequest : Reads 0 (fun c (_ : PhrRequest) => IsHead c) parseRequest := by
  apply Reads.cond
  · apply reads_eol.seq (fun _ => reads_parseRequestLine)
    rintro _ _ u v hu ⟨hv, he⟩
    have hu' : Piece 0 u := ⟨Nat.zero_le _, hu.lineSafe⟩
    exact ⟨Nat.zero_add 14 ▸ hu'.append hv, he.prepend u⟩
  · exact reads_parseRequestLine
  · intro _ _ h
    exact h.1.ne_nil

end Parts

section Complete

theorem isCompleteFrom_crlf (n : Nat) (t : Bytes) :
    isCompleteFrom n (CR :: LF :: t) = if n = 1 then .done () t else isCompleteFrom (n + 1) t := by
  rw [isCompleteFrom, if_pos rfl]
  exact if_neg fun h => h rfl

theorem isCompleteFrom_lf (n : Nat) (t : Bytes) :
    isCompleteFrom n (LF :: t) = if n = 1 then .done () t else isCompleteFrom (n + 1) t := by
  rw [isCompleteFrom.eq_def]
  rfl

theorem isCompleteFrom_other (hc : b ≠ CR) (hl : b ≠ LF) (n : Nat) (t : Bytes) :
    isCompleteFrom n (b :: t) = isCompleteFrom 0 t := by
  rw [isCompleteFrom.eq_def]
  simp only [hc, hl, ↓reduceIte]

theorem isCompleteFrom_eol (h : IsEol e) (n : Nat) (t : Bytes) :
    isCompleteFrom n (e ++ t) = if n = 1 then .done () t else isCompleteFrom (n + 1) t := by
  rcases h with rfl | rfl
  · exact isCompleteFrom_lf n t
  · exact isCompleteFrom_crlf n t

theorem isCompleteFrom_head (he : IsEol e) (he' : IsEol e') (t : Bytes) (u : Bytes)
    (hs : LineSafe (u ++ (e ++ e'))) (n : Nat) (hn : n ≤ 1) :
    ∃ rest, isCompleteFrom n (u ++ (e ++ (e' ++ t))) = .done () rest := by
  have hend : ∀ n ≤ 1, ∀ x, IsEol x → ∃ rest, isCompleteFrom n (x ++ (e' ++ t)) = .done () rest := by
    intro n hn x hx
    rw [isCompleteFrom_eol hx]
    by_cases h1 : n = 1
    · exact ⟨_, if_pos h1⟩
    · have h0 : n = 0 := by omega
      subst h0
      rw [if_neg h1, isCompleteFrom_eol he', if_pos rfl]
      exact ⟨_, rfl⟩
  induction hl : u.length using Nat.strongRecOn generalizing u n with
  | _ m ih =>
    cases u with
    | nil => exact hend n hn e he
    | cons b u =>
      have step : ∀ v, v.length < (b :: u).length → LineSafe (v ++ (e ++ e')) →
          ∃ rest, (if n = 1 then Res.done () (v ++ (e ++ (e' ++ t)))
            else isCompleteFrom (n + 1) (v ++ (e ++ (e' ++ t)))) = .done () rest := by
        intro v hv hsv
        by_cases h1 : n = 1
        · exact ⟨_, if_pos h1⟩
        · rw [if_neg h1]
          exact ih v.length (hl ▸ hv) v hsv (n + 1) (by omega) rfl
      by_cases hc : b = CR
      · subst hc
        have hnext := hs.1 rfl
        cases u with
        | nil =>
          -- the carriage return belongs to the line end itself
          rcases he with rfl | rfl
          · exact hend n hn crlf (.inr rfl)
          · cases hnext
        | cons c u =>
          cases hnext
          rw [List.cons_append, List.cons_append, isCompleteFrom_crlf]
          exact step u (by simp only [List.length_cons]; omega) hs.2.2
      · by_cases hlf : b = LF
        · subst hlf
          rw [List.cons_append, isCompleteFrom_lf]
          exact step u (Nat.lt_succ_self _) hs.2
        · rw [List.cons_append, isCompleteFrom_other hc hlf]
          exact ih u.length (hl ▸ Nat.lt_succ_self _) u hs.2 0 (Nat.zero_le _) rfl

theorem isCompleteFrom_ne_fail (s t : Bytes) (hs : LineSafe (s ++ t)) (n : Nat) :
    isCompleteFrom n s ≠ .fail := by
  fun_induction isCompleteFrom n s with
  | case1 | case2 | case4 | case6 => exact nofun
  | case3 n c s hc => exact absurd (Option.some.inj (hs.1 rfl)) hc
  | case5 n c s hc h1 ih => exact ih hs.2.2
  | case7 n s hb hl ih => exact ih hs.2
  | case8 n b s hb hl ih => exact ih hs.2

theorem phrParseRequest_done (h : phrParseRequest buf lastLen = .done a rest) :
    parseRequest buf = .done a rest := by
  rw [phrParseRequest] at h
  split at h
  · exact h
  · split at h
    · exact h
    · cases h
    · cases h

/-- A head that was not there yet when the buffer was last looked at is found. -/
theorem phrParseRequest_of_done (h : parseRequest buf = .done a rest)
    (hl : lastLen + rest.length < buf.length) : phrParseRequest buf lastLen = .done a rest := by
  rw [phrParseRequest]
  split
  · exact h
  · obtain ⟨-, c, rfl, ⟨⟨-, hs⟩, u, e, e', rfl, he, he'⟩, -⟩ := reads_parseRequest.done _ _ _ h
    have hd : lastLen - 3 ≤ u.length := by
      have := he.length
      have := he'.length
      simp only [List.length_append] at hl
      omega
    have hsafe : LineSafe (u.drop (lastLen - 3) ++ (e ++ e')) := by
      apply LineSafe.right (s := u.take (lastLen - 3))
      rwa [← List.append_assoc, List.take_append_drop, ← List.append_assoc]
    obtain ⟨r, hr⟩ := isCompleteFrom_head he he' rest (u.drop (lastLen - 3)) hsafe 0
      (Nat.zero_le _)
    have hc : isComplete (u ++ e ++ e' ++ rest) lastLen = .done () r := by
      rw [isComplete, List.append_assoc, List.append_assoc, List.drop_append_of_le_length hd, hr]
    rw [hc]
    exact h

theorem phrParseRequest_ne_fail (h : parseRequest (buf ++ t) = .done a rest)
    (hp : ∀ b r, parseRequest buf ≠ .done b r) : phrParseRequest buf lastLen ≠ .fail := by
  have hbuf : parseRequest buf ≠ .fail := by
    intro hf
    rw [reads_parseRequest.fail _ t hf] at h
    cases h
  have hrest := reads_parseRequest.rest_lt h hp
  obtain ⟨-, c, hc, ⟨⟨-, hsafe⟩, -⟩, -⟩ := reads_parseRequest.done _ _ _ h
  obtain ⟨u, rfl⟩ : ∃ u, c = buf ++ u := by
    rcases List.append_eq_append_iff.1 hc with ⟨u, hu, -⟩ | ⟨u, -, hu⟩
    · exact ⟨u, hu⟩
    · rw [hu, List.length_append] at hrest
      omega
  rw [phrParseRequest]
  split
  · exact hbuf
  · split
    · exact hbuf
    · next hf =>
      rw [← List.take_append_drop (lastLen - 3) buf, List.append_assoc] at hsafe
      exact absurd hf (isCompleteFrom_ne_fail _ _ hsafe.right 0)
    · exact nofun

end Complete

end Hical
